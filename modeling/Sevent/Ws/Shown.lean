import Sevent.Ws.Stored

-- What stream_consume presents of the frames on the streaming route, turn by turn of a whole run,
-- and how it is read frame by frame.
namespace Sevent.Ws

variable {σ δ : Type}

-- Bytes that are put into recv_buf, a frame that takes the streaming route with recv_buf from its
-- header on, and a turn of stream_consume.
inductive Shown (σ δ : Type) where
  | push (data : Bytes)
  | frame (hdr : FrameHeader) (size : Nat) (buf : Bytes)
  | chunk (c : Conn σ δ)

namespace Conn

variable (env : Env σ δ)

-- ---- one turn of stream_consume ----

def chunkLen (c : Conn σ δ) : Nat := min (min c.recv.length env.recvCap) c.streamRemaining

def chunkData (c : Conn σ δ) : Bytes :=
  if c.streamMask then applyMaskOffset c.streamMaskKey c.streamMaskOff (c.recv.take (chunkLen env c))
  else c.recv.take (chunkLen env c)

def unmaskChunk (c : Conn σ δ) : Conn σ δ :=
  { c with recv := chunkData env c ++ c.recv.drop (chunkLen env c) }

-- inflate is given the chunk of a compressed message,
def inflateChunk (c : Conn σ δ) : Int × Conn σ δ :=
  decompressStreamChunk env (chunkData env c) (unmaskChunk env c).isBin (unmaskChunk env c)

-- and the callback that of another one.
def handChunk (c : Conn σ δ) : Conn σ δ :=
  let last := chunkLen env c == c.streamRemaining && c.streamFin
  if env.onMessage.isSome then handed env (chunkData env c) last (unmaskChunk env c) else unmaskChunk env c

-- The turn. false = the function returns with the chunk in the buffer.
def streamTurn (c : Conn σ δ) : Bool × Conn σ δ :=
  if c.msg.compressed then
    if (inflateChunk env c).1 ≠ 0 then (false, (inflateChunk env c).2)
    else (true, advance (chunkLen env c) (inflateChunk env c).2)
  else if (handChunk env c).destroyed then (false, handChunk env c)
  else (true, advance (chunkLen env c) (handChunk env c))

theorem streamChunks_succ (fuel : Nat) (c : Conn σ δ) :
    streamChunks env (fuel + 1) c =
      if c.recv = [] ∨ c.streamRemaining = 0 then (true, c)
      else if c.destroyed then (false, c)
      else if (streamTurn env c).1 then streamChunks env fuel (streamTurn env c).2
      else (false, (streamTurn env c).2) := by
  rw [streamChunks]
  split
  · rfl
  split
  · rfl
  change (if c.msg.compressed = true then
      (if (inflateChunk env c).1 ≠ 0 then (false, (inflateChunk env c).2)
        else streamChunks env fuel (advance (chunkLen env c) (inflateChunk env c).2))
      else if (handChunk env c).destroyed = true then (false, handChunk env c)
        else streamChunks env fuel (advance (chunkLen env c) (handChunk env c))) = _
  unfold streamTurn
  split
  · split <;> rfl
  · split <;> rfl

-- ---- what a run shows ----

def chunksShown : Nat → Conn σ δ → List (Shown σ δ)
  | 0, _ => []
  | fuel + 1, c =>
      if c.recv = [] ∨ c.streamRemaining = 0 then []
      else if c.destroyed then []
      else
        .chunk c ::
          if (streamTurn env c).1 then chunksShown fuel (streamTurn env c).2 else []

def consumeShown (c : Conn σ δ) : List (Shown σ δ) := chunksShown env c.recv.length c

-- The checks of the streaming route.
def RefusesStream (hdr : FrameHeader) (c : Conn σ δ) : Prop :=
  (hdr.rsv2 ∨ hdr.rsv3) ∨ (hdr.rsv1 ∧ c.deflate.isNone) ∨ (hdr.rsv1 ∧ hdr.opcode = Opcode.cont) ∨
    hdr.mask = env.isClient ∨ (c.msg.mode ≠ .none ∧ hdr.opcode ≠ Opcode.cont) ∨
    (c.msg.mode = .none ∧ hdr.opcode ≠ Opcode.text ∧ hdr.opcode ≠ Opcode.binary)

instance decidableRefusesStream (hdr : FrameHeader) (c : Conn σ δ) :
    Decidable (RefusesStream env hdr c) := by
  unfold RefusesStream
  infer_instance

def joinFrame (hdr : FrameHeader) (c : Conn σ δ) : Bool × Conn σ δ :=
  let c := c.emit (.dataFrame hdr.opcode hdr.payloadLen hdr.fin (c.msg.compressed || hdr.rsv1))
  joinStream env hdr (c.emit (.streamFrame c.msg.mode c.frag.length))

theorem beginStream_eq (hdr : FrameHeader) (size : Nat) (c : Conn σ δ) :
    beginStream env hdr size c =
      if RefusesStream env hdr c then (some Err.wsProtocol, c)
      else (none, if (joinFrame env hdr c).1 then (joinFrame env hdr c).2
        else streamConsume env (armStream hdr size (joinFrame env hdr c).2)) := by
  unfold beginStream
  by_cases h : RefusesStream env hdr c
  · rw [if_pos h]
    rcases h with h | h | h | h | h | h
    all_goals
      simp only [h, if_true, and_self, ne_eq, not_false_eq_true]
      try split_ifs <;> rfl
  · rw [if_neg h]
    simp only [RefusesStream, not_or] at h
    obtain ⟨hrsv, hdeflate, hcont, hmask, hopen, hfirst⟩ := h
    rw [if_neg (not_or.mpr hrsv), if_neg hdeflate, if_neg hcont, if_neg hmask, if_neg hopen, if_neg hfirst]
    rfl

def beginShown (hdr : FrameHeader) (size : Nat) (c : Conn σ δ) : List (Shown σ δ) :=
  if RefusesStream env hdr c then []
  else if (joinFrame env hdr c).1 then []
  else .frame hdr size c.recv :: consumeShown env (armStream hdr size (joinFrame env hdr c).2)

def framesShown : Nat → Conn σ δ → List (Shown σ δ)
  | 0, _ => []
  | fuel + 1, c =>
      if c.recv = [] ∨ c.state = .closed then []
      else if c.destroyed then []
      else
        match c.look env with
        | .more => []
        | .protocol => []
        | .large hdr size => beginShown env hdr size c
        | .whole hdr size =>
            match wholeFrame env hdr size c with
            | (.goOn, c) => framesShown fuel c
            | (.ret _, _) => []

-- A turn of the loop of ws_frame_data.
def loopTurn (c : Conn σ δ) : Int × Conn σ δ :=
  let c := if c.streamRemaining > 0 then streamConsume env c else c
  if c.streamRemaining = 0 then runFrames env c else (0, c)

theorem streamLoop_turn (fuel : Nat) (c : Conn σ δ) :
    streamLoop env (fuel + 1) c =
      if c.recv = [] then (0, c)
      else if (loopTurn env c).2.recv.length = c.recv.length then loopTurn env c
      else if (loopTurn env c).1 ≠ 0 then loopTurn env c
      else streamLoop env fuel (loopTurn env c).2 := rfl

def loopShown : Nat → Conn σ δ → List (Shown σ δ)
  | 0, _ => []
  | fuel + 1, c =>
      if c.recv = [] then []
      else
        let c₁ := if c.streamRemaining > 0 then streamConsume env c else c
        (if c.streamRemaining > 0 then consumeShown env c else []) ++
          (if c₁.streamRemaining = 0 then framesShown env c₁.recv.length c₁ else []) ++
          if (loopTurn env c).2.recv.length = c.recv.length then []
          else if (loopTurn env c).1 ≠ 0 then []
          else loopShown fuel (loopTurn env c).2

def dataShown (c : Conn σ δ) : List (Shown σ δ) :=
  let c := c.emit .frameData
  if c.msg.mode = .stream then loopShown env (c.recv.length + 1) c
  else framesShown env c.recv.length c

def openShown (skip : Nat) (c : Conn σ δ) : List (Shown σ δ) :=
  let c := { c with recv := c.recv.drop skip }.setState .opened
  let c := (callback env env.onOpen .onOpen c).emit .openReturned
  if c.destroyed then []
  else
    let c := c.registerPing env
    if c.recv = [] then [] else framesShown env c.recv.length c

-- The handshake of the server as far as OPEN.
def serverOpens (c : Conn σ δ) : Option (Nat × Conn σ δ) :=
  let (ret, req) := parseRequest c.recv
  if ret ≤ 0 ∨ req.status ≠ 0 then none
  else
    let (confirm, c) :=
      if env.enableDeflate && req.deflateOffered then
        createDeflate env
          { DeflateParams.zero with
            clientNoContextTakeover := req.clientNoContextTakeover
            compressionLevel := env.deflateLevel } c
      else (false, c)
    match buildResponse 512 req.key confirm with
    | none => none
    | some resp =>
        let (rc, c) := streamWrite env (notify env) (.upgradeOut resp) c
        if rc ≠ 0 then none else some (ret.toNat, c)

def establishOpens (ret : Nat) (resp : HandshakeResponse) (c : Conn σ δ) : Option (Nat × Conn σ δ) :=
  if !extensionsOk resp.extensions env.enableDeflate then none
  else
    let (ok, c) := negotiate env resp.extensions c
    if !ok then none else some (ret, c)

def clientOpens (c : Conn σ δ) : Option (Nat × Conn σ δ) :=
  let (ret, resp) := parseResponse c.recv
  if ret = 0 then none
  else if ret < 0 then none
  else
    let c := c.emit (.response c.recv)
    if resp.redirects then none
    else if env.onHttpResponse.isSome then
      if resp.statusCode ≠ 101 ∨ !verifyAccept c.secWsKey resp.accept then none
      else establishOpens env ret.toNat resp c
    else if !verifyAccept c.secWsKey resp.accept then none
    else establishOpens env ret.toNat resp c

def openedShown : Option (Nat × Conn σ δ) → List (Shown σ δ)
  | none => []
  | some (skip, c) => openShown env skip c

def handshakeShown (c : Conn σ δ) : List (Shown σ δ) :=
  openedShown env (if env.isClient then clientOpens env c else serverOpens env c)

def onDataShown (data : Bytes) (c : Conn σ δ) : List (Shown σ δ) :=
  if c.gone then []
  else if c.recv.length + data.length > env.recvCap then []
  else
    let c := { c with recv := c.recv ++ data }
    .push data :: if c.state = .handshake then handshakeShown env c else dataShown env c

def stepShown (c : Conn σ δ) : Input → List (Shown σ δ)
  | .data d => if c.stream = .opened then onDataShown env d c else []
  | _ => []

def runShown : Conn σ δ → List Input → List (Shown σ δ)
  | _, [] => []
  | c, i :: rest => stepShown env c i ++ runShown (step env c i) rest

-- The ways into a connection, and what they show.
inductive Begins : Conn σ δ → List (Shown σ δ) → Prop
  | start (host : Bytes) (port : Nat) (path : Bytes) (seed : UInt32) :
      Begins (start host port path seed) []
  | upgrade (recv : Bytes) (seed : UInt32) (hserver : env.isClient = false) :
      Begins (upgrade env recv seed)
        (.push recv ::
          handshakeShown env { start [] 0 [] seed with stream := .opened, recv := recv })

end Conn

-- ---- the frames of a run ----

-- What has been received when the frame is taken up, the bytes behind recv_buf of then, and what
-- stream_consume has presented of it.
structure Streamed where
  wire : Bytes
  hdr : FrameHeader
  size : Nat
  buf : Bytes
  pushed : Bytes
  shown : Bytes

namespace Streamed

-- The payload as it arrives, and what follows it.
def payload (s : Streamed) : Bytes := s.buf.drop s.size ++ s.pushed

-- The payload bytes in order, each unmasked once at its offset in the frame.
structure Unmasked (s : Streamed) : Prop where
  buf : s.buf <:+ s.wire
  header : parseHeader s.buf = .complete s.hdr s.size
  le : s.shown.length ≤ s.hdr.payloadLen
  arrived : s.shown.length ≤ s.payload.length
  shown : s.shown =
    if s.hdr.mask then applyMask s.hdr.maskKey (s.payload.take s.shown.length)
    else s.payload.take s.shown.length

def Complete (s : Streamed) : Prop := s.shown.length = s.hdr.payloadLen

end Streamed

-- The last frame stands first.
structure Tape where
  wire : Bytes
  frames : List Streamed

namespace Tape

-- none = a chunk of no frame, or with the cursor at another byte than the next one of its frame
def read (env : Env σ δ) (t : Tape) : Shown σ δ → Option Tape
  | .push d =>
      some ⟨t.wire ++ d,
        match t.frames with
        | [] => []
        | s :: rest => { s with pushed := s.pushed ++ d } :: rest⟩
  | .frame hdr size buf => some { t with frames := ⟨t.wire, hdr, size, buf, [], []⟩ :: t.frames }
  | .chunk c =>
      match t.frames with
      | [] => none
      | s :: rest =>
          if c.streamMaskOff = s.shown.length then
            some { t with frames := { s with shown := s.shown ++ c.chunkData env } :: rest }
          else none

def reads (env : Env σ δ) (t : Tape) (l : List (Shown σ δ)) : Option Tape := l.foldlM (read env) t

-- Every frame is unmasked, and all but the last one to their ends.
structure Sound (t : Tape) : Prop where
  unmasked : ∀ s ∈ t.frames, s.Unmasked
  complete : ∀ s ∈ t.frames.tail, s.Complete

end Tape

end Sevent.Ws
