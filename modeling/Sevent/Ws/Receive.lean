import Sevent.Ws.Conn

-- The receiving side of ws_conn.c: reassembly, inflate and the frame loop.
namespace Sevent.Ws

variable {σ δ : Type}

def decompBatch : Nat := 4096
def deflateTail : Bytes := [0x00, 0x00, 0xFF, 0xFF]
def sizeMax : Nat := 18446744073709551615

-- 64-bit unsigned arithmetic
def wrap64 (n : Nat) : Nat := n % 18446744073709551616

namespace Conn

def isBin (c : Conn σ δ) : Bool := c.msg.opcode == Opcode.binary

variable (env : Env σ δ)

def setInflate (c : Conn σ δ) (s : σ) : Conn σ δ :=
  { c with deflate := c.deflate.map fun df => { df with inflate := s } }

-- How the three inflate loops differ: flush mode, accepted codes, exit condition.
structure InflateLoop where
  site : Site
  flush : Flush
  acceptEnd : Bool
  drain : Bool

-- Turns enough for the loop, since every turn that does not end it takes input or fills a batch.
def inflateFuel (z : Zlib σ δ) (s : σ) (input : Bytes) : Nat :=
  z.backlog s input + input.length + 1

-- The loop that the three functions share. true = reached the end of the loop, false = `ret`
-- is returned at once: with the error code, or with 0 when the callback has destroyed.
def inflateLoop (l : InflateLoop) (isBin : Bool) : Nat → σ → Bytes → Conn σ δ → Bool × Int × Conn σ δ
  | 0, s, _, c => (false, Err.wsProtocol, c.setInflate s)
  | fuel + 1, s, input, c =>
      let r := env.zlib.inflate s input decompBatch l.flush
      let rest := input.drop r.consumed
      if r.res = .bufError ∧ rest ≠ [] then
        (false, Err.wsProtocol, c.setInflate (env.zlib.inflateReset r.state))
      else if r.res = .error ∨ (r.res = .streamEnd ∧ !l.acceptEnd) then
        (false, Err.wsProtocol, c.setInflate (env.zlib.inflateReset r.state))
      else
        let c := c.setInflate r.state
        let c := if r.out ≠ [] then message env l.site r.out isBin false 0 c else c
        if r.out ≠ [] ∧ c.destroyed then (false, Err.success, c)
        else if r.out.length < decompBatch ∧ (l.drain ∨ rest = []) then (true, Err.success, c)
        else inflateLoop l isBin fuel r.state rest c

-- z->avail_in is a 32-bit unsigned int.
def availIn (data : Bytes) : Bytes := data.take (data.length % 4294967296)

-- A call without a deflate context would dereference NULL; the callers never make it.
def decompressStreamChunk (data : Bytes) (isBin : Bool) (c : Conn σ δ) : Int × Conn σ δ :=
  if env.onMessage.isNone then (Err.success, c)
  else
    match c.deflate with
    | none => (Err.success, c)
    | some df =>
        let (ok, c) := c.alloc env
        if !ok then (Err.nomem, c)
        else
          let input := availIn data
          let (_, ret, c) := inflateLoop env ⟨.inflateChunk, .noFlush, false, false⟩ isBin
            (inflateFuel env.zlib df.inflate input) df.inflate input c
          (ret, c)

-- inflateReset at the end of a message whose sender does not keep its context.
def inflateRest (c : Conn σ δ) : Conn σ δ :=
  { c with
    deflate := c.deflate.map fun df =>
      if df.serverNoContextTakeover then { df with inflate := env.zlib.inflateReset df.inflate }
      else df }

def decompressStreamEnd (isBin : Bool) (c : Conn σ δ) : Int × Conn σ δ :=
  if env.onMessage.isNone then (Err.success, c)
  else
    match c.deflate with
    | none => (Err.success, c)
    | some df =>
        let (ok, c) := c.alloc env
        if !ok then (Err.nomem, c)
        else
          let (done, ret, c) := inflateLoop env ⟨.inflateEnd, .syncFlush, true, true⟩ isBin
            (inflateFuel env.zlib df.inflate deflateTail) df.inflate deflateTail c
          if !done then (ret, c)
          else
            let c :=
              if !c.msg.finSent then
                message env .inflateEnd [] isBin true 0 { c with msg := { c.msg with finSent := true } }
              else c
            (Err.success, c.inflateRest env)

def decompressOneshot (data : Bytes) (isBin : Bool) (c : Conn σ δ) : Int × Conn σ δ :=
  if env.onMessage.isNone then (Err.success, c)
  else
    match c.deflate with
    | none => (Err.success, c)
    | some df =>
        let (ok, c) := c.alloc env
        if !ok then (Err.nomem, c)
        else
          let (ok, c) := c.alloc env
          if !ok then (Err.nomem, c)
          else
            let input := availIn (data ++ deflateTail)
            let (done, ret, c) := inflateLoop env ⟨.inflateOneshot, .syncFlush, true, true⟩ isBin
              (inflateFuel env.zlib df.inflate input) df.inflate input c
            if !done then (ret, c)
            else
              let c := message env .inflateOneshot [] isBin true 0 c
              (Err.success, c.inflateRest env)

def msgEnd (isBin : Bool) (c : Conn σ δ) : Conn σ δ :=
  let c :=
    if c.msg.mode = .none then c
    else if c.msg.compressed then (decompressStreamEnd env isBin c).2
    else if !c.msg.finSent ∧ env.onMessage.isSome then
      let c := message env .msgEnd [] isBin true c.msg.total c
      { c with msg := { c.msg with finSent := true } }
    else c
  { c with
    msg := { c.msg with mode := .none, compressed := false, total := 0, finSent := false }
    frag := [] }

-- The payload bytes of a streamed frame, as far as they have arrived.
def streamChunks : Nat → Conn σ δ → Bool × Conn σ δ
  | 0, c => (true, c)
  | fuel + 1, c =>
      if c.recv = [] ∨ c.streamRemaining = 0 then (true, c)
      else if c.destroyed then (false, c)
      else
        let chunk := min (min c.recv.length env.recvCap) c.streamRemaining
        let last := chunk == c.streamRemaining && c.streamFin
        -- unmasked in place: the bytes stay so if the chunk is not consumed
        let data := if c.streamMask then
            applyMaskOffset c.streamMaskKey c.streamMaskOff (c.recv.take chunk)
          else c.recv.take chunk
        let c := { c with recv := data ++ c.recv.drop chunk }
        let advance := fun c : Conn σ δ =>
          { c with
            recv := c.recv.drop chunk
            streamRemaining := c.streamRemaining - chunk
            streamMaskOff := c.streamMaskOff + chunk }
        if c.msg.compressed then
          let (ret, c) := decompressStreamChunk env data c.isBin c
          if ret ≠ 0 then (false, c) else streamChunks fuel (advance c)
        else
          let c :=
            if env.onMessage.isSome then
              let c := message env .streamConsume data c.isBin last (if last then c.msg.total else 0) c
              if last then { c with msg := { c.msg with finSent := true } } else c
            else c
          if c.destroyed then (false, c) else streamChunks fuel (advance c)

def streamConsume (c : Conn σ δ) : Conn σ δ :=
  let isBin := c.isBin
  let (done, c) := streamChunks env c.recv.length c
  if !done then c else if c.streamRemaining = 0 ∧ c.streamFin then msgEnd env isBin c else c

def fragAppend (data : Bytes) (c : Conn σ δ) : Int × Conn σ δ :=
  if data = [] then (0, c)
  else if data.length > env.recvCap then (-1, c)
  else
    let (stop, c) :=
      if c.frag.length + data.length > env.recvCap then
        let c :=
          if env.onMessage.isSome ∧ c.frag ≠ [] then
            if c.msg.compressed then (decompressStreamChunk env c.frag c.isBin c).2
            else message env .fragAppend c.frag c.isBin false 0 c
          else c
        if env.onMessage.isSome ∧ c.frag ≠ [] ∧ c.destroyed then (true, c)
        else (false, { c with frag := [] })
      else (false, c)
    if stop then (0, c)
    else
      (0, { c with
        msg := { c.msg with total := wrap64 (c.msg.total + data.length) }
        frag := c.frag ++ data })

theorem fragAppend_rc {payload : Bytes} {c : Conn σ δ} (hlen : payload.length ≤ env.recvCap) :
    (fragAppend env payload c).1 = 0 := by
  unfold fragAppend
  split
  · rfl
  rw [if_neg (by omega), apply_ite Prod.fst]
  exact ite_self _

-- Whole blocks of the buffer. true = the callback has destroyed.
def fragBlocks (fin : Bool) : Nat → Conn σ δ → Bool × Conn σ δ
  | 0, c => (false, c)
  | fuel + 1, c =>
      if c.frag.length ≥ env.recvCap ∧ (fin ∨ c.frag.length > env.recvCap ∨ c.msg.compressed) then
        let last := fin && c.frag.length == env.recvCap
        let c := if last then { c with msg := { c.msg with finSent := true } } else c
        let block := c.frag.take env.recvCap
        let c :=
          if c.msg.compressed then (decompressStreamChunk env block c.isBin c).2
          else message env .fragFlush block c.isBin last (if last then c.msg.total else 0) c
        if c.destroyed then (true, c)
        else fragBlocks fin fuel { c with frag := c.frag.drop env.recvCap }
      else (false, c)

-- The end of the message: what the blocks have left.
def fragRest (isBin : Bool) (c : Conn σ δ) : Conn σ δ :=
  if c.frag = [] then msgEnd env isBin c
  else if c.msg.compressed then
    let c := (decompressStreamChunk env c.frag isBin c).2
    if c.destroyed then c else msgEnd env isBin { c with frag := [] }
  else if !isBin ∧ !utf8Validate c.frag then sendCloseCode env (notify env) 1007 c
  else
    let c := { c with msg := { c.msg with finSent := true } }
    let c := message env .fragFlush c.frag isBin true c.msg.total c
    if c.destroyed then c else msgEnd env isBin { c with frag := [] }

def fragFlush (fin : Bool) (c : Conn σ δ) : Conn σ δ :=
  let isBin := c.isBin
  let (stop, c) := fragBlocks env fin c.frag.length
    (c.emit (.fragFlush c.msg.compressed fin c.frag.length))
  if stop ∨ !fin then c else fragRest env isBin c

def fragFlushTail (c : Conn σ δ) : Conn σ δ :=
  if c.frag = [] then c
  else
    let c :=
      if c.msg.compressed then (decompressStreamChunk env c.frag c.isBin c).2
      else if env.onMessage.isSome then message env .fragFlushTail c.frag c.isBin false 0 c
      else c
    { c with frag := [] }

-- A message in one frame.
def handleSingle (hdr : FrameHeader) (payload : Bytes) (c : Conn σ δ) : Int × Conn σ δ :=
  if hdr.opcode = Opcode.text ∧ !utf8Validate payload then
    (-1, sendCloseCode env (notify env) 1007 c)
  else if env.onMessage.isSome then
    let c := message env .frame payload (hdr.opcode == Opcode.binary) true hdr.payloadLen c
    (if c.destroyed then -1 else 0, c)
  else (0, c)

def handleTextBinary (hdr : FrameHeader) (payload : Bytes) (c : Conn σ δ) : Int × Conn σ δ :=
  if c.msg.mode ≠ .none then (Err.wsProtocol, c)
  else
    let c := c.emit (.dataFrame hdr.opcode hdr.payloadLen hdr.fin c.msg.compressed)
    if hdr.fin then handleSingle env hdr payload c
    else
      let c :=
        { c with
          msg := { c.msg with opcode := hdr.opcode, total := 0, finSent := false, mode := .frag } }
      let (r, c) := fragAppend env payload c
      if r ≠ 0 then (Err.nomem, c)
      else
        let c := fragFlush env false c
        (if c.destroyed then -1 else 0, c)

def handleCont (hdr : FrameHeader) (payload : Bytes) (c : Conn σ δ) : Int × Conn σ δ :=
  if c.msg.mode = .none then (Err.wsProtocol, c)
  else
    let c := c.emit (.dataFrame hdr.opcode hdr.payloadLen hdr.fin c.msg.compressed)
    let (r, c) := fragAppend env payload c
    if r ≠ 0 then (Err.nomem, c)
    else
      let c := fragFlush env hdr.fin c
      (if c.destroyed then -1 else 0, c)

def handlePing (payload : Bytes) (c : Conn σ δ) : Int × Conn σ δ :=
  let (r, c) := sendFrame env (notify env) Opcode.pong (.bytes payload) c
  (if r ≠ 0 then Err.wsWrite else 0, c)

def handlePong (payload : Bytes) (c : Conn σ δ) : Int × Conn σ δ :=
  let c := callback env env.onPong (.onPong payload) c
  (if c.destroyed then -1 else 0, c)

-- The peer's CLOSE once its code and its reason have been checked.
def acceptClose (payload : Bytes) (code : Nat) (reason : Bytes) (c : Conn σ δ) : Conn σ δ :=
  if c.state = .closing then enterClosed (notify env) code reason c
  else
    enterClosed (notify env) code reason
      (sendFrame env (notify env) Opcode.close (.bytes payload) c).2

def handleClose (payload : Bytes) (c : Conn σ δ) : Int × Conn σ δ :=
  if payload.length ≥ 2 then
    let code := bigEndian (payload.take 2)
    let reason := payload.drop 2
    if !closeCodeValid code then (Err.wsProtocol, c)
    else if reason ≠ [] ∧ !utf8Validate reason then (0, sendCloseCode env (notify env) 1007 c)
    else (0, acceptClose env payload code reason c)
  else (0, acceptClose env payload 1000 [] c)

-- How a frame header stands to the buffer.
inductive Look where
  | more
  | protocol
  -- a part of a large frame is buffered
  | large (hdr : FrameHeader) (size : Nat)
  | whole (hdr : FrameHeader) (size : Nat)

def look (c : Conn σ δ) : Look :=
  match parseHeader c.recv with
  | .more => .more
  | .error => .protocol
  | .complete hdr n =>
      if hdr.payloadLen > sizeMax - n then .protocol
      else if c.recv.length < n + hdr.payloadLen then
        if n + hdr.payloadLen > env.recvCap / 2 then .large hdr n else .more
      else .whole hdr n

theorem look_whole {c : Conn σ δ} {hdr : FrameHeader} {size : Nat} (h : c.look env = .whole hdr size) :
    2 ≤ size ∧ size + hdr.payloadLen ≤ c.recv.length ∧ hdr.payloadLen ≤ sizeMax := by
  unfold look at h
  split at h
  · cases h
  · cases h
  · rename_i hdr' n hp
    have hn := parseHeader_complete hp
    split_ifs at h
    cases h
    omega

theorem look_large {c : Conn σ δ} {hdr : FrameHeader} {size : Nat} (h : c.look env = .large hdr size) :
    2 ≤ size ∧ size ≤ c.recv.length ∧ c.recv.length < size + hdr.payloadLen := by
  unfold look at h
  split at h
  · cases h
  · cases h
  · rename_i hdr' n hp
    have hn := parseHeader_complete hp
    split_ifs at h
    cases h
    omega

-- A frame that is waited for has no more than recv_cap/2 bytes.
theorem look_more {c : Conn σ δ} (h : c.look env = .more) :
    c.recv.length < 14 ∨ c.recv.length < env.recvCap / 2 := by
  unfold look at h
  split at h
  · exact .inl (parseHeader_more ‹_›)
  · cases h
  · split_ifs at h
    omega

-- The message that a large frame belongs to. true = the callback has destroyed.
def joinStream (hdr : FrameHeader) (c : Conn σ δ) : Bool × Conn σ δ :=
  match c.msg.mode with
  | .frag =>
      let c := fragFlushTail env c
      if c.destroyed then (true, c) else (false, { c with msg := { c.msg with mode := .stream } })
  | .stream => (false, c)
  | .none =>
      (false, { c with
        msg :=
          { mode := .stream, opcode := hdr.opcode, total := 0, finSent := false
            compressed := c.msg.compressed || hdr.rsv1 } })

def armStream (hdr : FrameHeader) (size : Nat) (c : Conn σ δ) : Conn σ δ :=
  { c with
    streamRemaining := hdr.payloadLen
    streamFin := hdr.fin
    streamMask := hdr.mask
    streamMaskKey := if hdr.mask then hdr.maskKey else c.streamMaskKey
    streamMaskOff := 0
    msg := { c.msg with total := wrap64 (c.msg.total + hdr.payloadLen) }
    recv := c.recv.drop size }

-- The checks of the streaming route, then the first part of the payload.
-- `none` = no error.
def beginStream (hdr : FrameHeader) (size : Nat) (c : Conn σ δ) : Option Int × Conn σ δ :=
  if hdr.rsv2 ∨ hdr.rsv3 then (some Err.wsProtocol, c)
  else if hdr.rsv1 ∧ c.deflate.isNone then (some Err.wsProtocol, c)
  else if hdr.rsv1 ∧ hdr.opcode = Opcode.cont then (some Err.wsProtocol, c)
  else if hdr.mask = env.isClient then (some Err.wsProtocol, c)
  else if c.msg.mode ≠ .none ∧ hdr.opcode ≠ Opcode.cont then (some Err.wsProtocol, c)
  else if c.msg.mode = .none ∧ hdr.opcode ≠ Opcode.text ∧ hdr.opcode ≠ Opcode.binary then
    (some Err.wsProtocol, c)
  else
    let c := c.emit (.dataFrame hdr.opcode hdr.payloadLen hdr.fin (c.msg.compressed || hdr.rsv1))
    let (stop, c) := joinStream env hdr (c.emit (.streamFrame c.msg.mode c.frag.length))
    (none, if stop then c else streamConsume env (armStream hdr size c))

-- After a frame: go on with the rest of the buffer, or return.
inductive Next where
  | goOn
  | ret (r : Int)
  deriving DecidableEq, Repr

def dispatch (hdr : FrameHeader) (payload : Bytes) (c : Conn σ δ) : Option (Int × Conn σ δ) :=
  if hdr.opcode = Opcode.text ∨ hdr.opcode = Opcode.binary then
    some (handleTextBinary env hdr payload c)
  else if hdr.opcode = Opcode.cont then some (handleCont env hdr payload c)
  else if hdr.opcode = Opcode.ping then some (handlePing env payload c)
  else if hdr.opcode = Opcode.pong then some (handlePong env payload c)
  else none

def framePayload (hdr : FrameHeader) (size : Nat) (c : Conn σ δ) : Bytes :=
  let raw := (c.recv.drop size).take hdr.payloadLen
  if hdr.mask then applyMask hdr.maskKey raw else raw

-- The payload is unmasked in place.
def unmaskFrame (hdr : FrameHeader) (size : Nat) (c : Conn σ δ) : Conn σ δ :=
  { c with
    recv := c.recv.take size ++ framePayload hdr size c ++ c.recv.drop (size + hdr.payloadLen) }

def consumeFrame (hdr : FrameHeader) (size : Nat) (c : Conn σ δ) : Conn σ δ :=
  { c with recv := c.recv.drop (size + hdr.payloadLen) }

-- A compressed message in one frame.
def oneshotFrame (hdr : FrameHeader) (size : Nat) (payload : Bytes) (c : Conn σ δ) : Next × Conn σ δ :=
  if c.msg.mode ≠ .none then (.ret Err.wsProtocol, c)
  else
    let c := c.emit (.dataFrame hdr.opcode hdr.payloadLen hdr.fin true)
    let (r, c) := decompressOneshot env payload (hdr.opcode == Opcode.binary) c
    if r ≠ 0 then (.ret r, c)
    else if c.destroyed then (.ret 0, c)
    else (.goOn, consumeFrame hdr size c)

def noteCompressed (hdr : FrameHeader) (c : Conn σ δ) : Conn σ δ :=
  if hdr.rsv1 ∧ (hdr.opcode = Opcode.text ∨ hdr.opcode = Opcode.binary) then
    { c with msg := { c.msg with compressed := true } }
  else c

def plainFrame (hdr : FrameHeader) (size : Nat) (payload : Bytes) (c : Conn σ δ) : Next × Conn σ δ :=
  if Opcode.isControl hdr.opcode ∧ hdr.payloadLen > 125 then (.ret Err.wsProtocol, c)
  else if Opcode.isControl hdr.opcode ∧ !hdr.fin then (.ret Err.wsProtocol, c)
  else if hdr.opcode = Opcode.close then
    let (r, c) := handleClose env payload c
    (.ret r, c)
  else
    match dispatch env hdr payload c with
    | none => (.ret Err.wsProtocol, c)
    | some (r, c) =>
        if r < 0 then (.ret (-1), c)
        else if r > 0 then (.ret r, c)
        else (.goOn, consumeFrame hdr size c)

-- A frame that is in the buffer as a whole.
def wholeFrame (hdr : FrameHeader) (size : Nat) (c : Conn σ δ) : Next × Conn σ δ :=
  let payload := framePayload hdr size c
  if hdr.mask = env.isClient then (.ret Err.wsProtocol, c)
  else
    let c := unmaskFrame hdr size c
    if hdr.rsv2 ∨ hdr.rsv3 then (.ret Err.wsProtocol, c)
    else if hdr.rsv1 ∧ Opcode.isControl hdr.opcode then (.ret Err.wsProtocol, c)
    else if hdr.rsv1 ∧ c.deflate.isNone then (.ret Err.wsProtocol, c)
    else if hdr.rsv1 ∧ hdr.opcode = Opcode.cont then (.ret Err.wsProtocol, c)
    else if hdr.rsv1 ∧ hdr.fin then oneshotFrame env hdr size payload c
    else plainFrame env hdr size payload (noteCompressed hdr c)

def processFrames : Nat → Conn σ δ → Int × Conn σ δ
  | 0, c => (0, c)
  | fuel + 1, c =>
      if c.recv = [] ∨ c.state = .closed then (0, c)
      else if c.destroyed then (0, c)
      else
        match c.look env with
        | .more => (0, c)
        | .protocol => (Err.wsProtocol, c)
        | .large hdr size =>
            match beginStream env hdr size c with
            | (some err, c) => (err, c)
            | (none, c) => (0, c)
        | .whole hdr size =>
            match wholeFrame env hdr size c with
            | (.goOn, c) => processFrames fuel c
            | (.ret r, c) => (r, c)

-- Every turn takes a frame header at least.
def runFrames (c : Conn σ δ) : Int × Conn σ δ := processFrames env c.recv.length c

def streamLoop : Nat → Conn σ δ → Int × Conn σ δ
  | 0, c => (0, c)
  | fuel + 1, c =>
      if c.recv = [] then (0, c)
      else
        let prev := c.recv.length
        let c := if c.streamRemaining > 0 then streamConsume env c else c
        let (err, c) := if c.streamRemaining = 0 then runFrames env c else (0, c)
        if c.recv.length = prev then (err, c)
        else if err ≠ 0 then (err, c)
        else streamLoop fuel c

def frameData (c : Conn σ δ) : Conn σ δ :=
  let c := c.emit .frameData
  let (err, c) := if c.msg.mode = .stream then streamLoop env (c.recv.length + 1) c else runFrames env c
  if err ≠ 0 then fatal env (notify env) err c else c

end Conn

end Sevent.Ws
