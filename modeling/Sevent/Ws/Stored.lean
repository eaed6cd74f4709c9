import Sevent.Ws.Inflate

-- Inflate for streams of stored blocks (RFC 1951, 3.2.4), as an automaton.
namespace Sevent.Ws

open Decoder

-- ---- zlib over an automaton ----

section

variable {δ τ : Type} (start : τ) (step : τ → Byte → τ × Bytes) (status : τ → Reading)

def goes (t : τ) : Bool := status t == .going

-- A call of inflate: the state and the text that there was no room for, the input and the room.
def inflateSteps (s : τ × Bytes) (input : Bytes) (room : Nat) (_ : Flush) : InflateOut (τ × Bytes) :=
  let r := fill step (goes status) (room - s.2.length) s.1 input
  let text := s.2 ++ r.2.2
  { res :=
      if status r.2.1 = .bad then .error
      else if status r.2.1 = .final ∧ text.length ≤ room then .streamEnd
      else if r.1 = 0 ∧ text.take room = [] then .bufError
      else .ok
    state := (r.2.1, text.drop room)
    consumed := r.1
    out := text.take room }

-- `at_` of this inflate.
def StepsAt (s : τ × Bytes) (h : Bytes) (k : Nat) : Prop :=
  s.1 = (steps step start h).1 ∧ k ≤ (steps step start h).2.length ∧
    s.2 = (steps step start h).2.drop k

variable {start step status}

-- What a call takes, and the text in front of it.
theorem inflateSteps_spec {s : τ × Bytes} {h : Bytes} {k : Nat} (hs : StepsAt start step s h k)
    (input : Bytes) (room : Nat) (flush : Flush) :
    let r := inflateSteps step status s input room flush
    let f := fill step (goes status) (room - s.2.length) s.1 input
    r.consumed = f.1 ∧ f.2.1 = (steps step start (h ++ input.take f.1)).1 ∧
      s.2 ++ f.2.2 = (steps step start (h ++ input.take f.1)).2.drop k := by
  obtain ⟨hstate, hk, hpending⟩ := hs
  have hfill := fill_steps step (goes status) (room - s.2.length) s.1 input
  refine ⟨rfl, ?_, ?_⟩
  · rw [hfill, steps_append, hstate]
  · rw [hfill, steps_append, List.drop_append_of_le_length hk, hpending, hstate]

variable (start step status) in
-- The compressor is not used.
def zlibSteps : Zlib (τ × Bytes) Unit where
  inflateInit bits := if 8 ≤ bits ∧ bits ≤ 15 then some (start, []) else none
  inflate := inflateSteps step status
  inflateReset _ := (start, [])
  deflateInit _ bits := if 9 ≤ bits ∧ bits ≤ 15 then some () else none
  deflateBound _ n := n + 13
  deflate _ _ _ _ := ⟨.bufError, (), []⟩
  deflateReset d := d
  backlog s input := s.2.length + (steps step s.1 input).2.length
  consumed_le _ _ _ _ := fill_le _ _ _ _ _
  out_le _ _ _ _ := by
    rw [inflateSteps, List.length_take]
    exact Nat.min_le_left _ _
  progress s input room flush h := by
    unfold inflateSteps at h ⊢
    dsimp only at h ⊢
    split_ifs at h with _ _ hnone
    rcases not_and_or.mp hnone with hsome | hsome
    · exact .inl (Nat.pos_of_ne_zero hsome)
    · exact .inr hsome
  backlog_le s input room flush := by
    have hfill := fill_steps step (goes status) (room - s.2.length) s.1 input
    have hall := steps_append step s.1
      (input.take (fill step (goes status) (room - s.2.length) s.1 input).1)
      (input.drop (fill step (goes status) (room - s.2.length) s.1 input).1)
    rw [List.take_append_drop, ← hfill] at hall
    rw [hall]
    simp only [inflateSteps, List.length_take, List.length_drop, List.length_append]
    omega

theorem zlibSteps_inflates :
    (zlibSteps start step status).Inflates (ofSteps start step status) (StepsAt start step) where
  init := by
    intro bits s h
    simp only [zlibSteps] at h
    split at h
    · cases h
      exact ⟨rfl, le_rfl, rfl⟩
    · cases h
  reset _ := ⟨rfl, le_rfl, rfl⟩
  before := by
    intro s h k hs _ input room flush _ y hy hlt
    have hgo := fill_before step (goes status) (room - s.2.length) s.1 input hy hlt
    rw [hs.1] at hgo
    have hstate : (steps step start (h ++ y)).1 = (steps step (steps step start h).1 y).1 := by
      rw [steps_append]
    exact (congrArg status hstate).trans (eq_of_beq hgo)
  error := by
    intro s h k hs _ input room flush _
    obtain ⟨hcons, hstate, -⟩ := inflateSteps_spec hs input room flush
    rw [ofSteps_status, zlibSteps, hcons, ← hstate]
    unfold inflateSteps
    dsimp only
    constructor
    · intro hres
      split_ifs at hres with hbad
      exact hbad
    · exact fun hbad => if_pos hbad
  turn := by
    intro s h k hs _ input room flush _ hgood
    obtain ⟨hcons, hstate, htext⟩ := inflateSteps_spec hs input room flush
    have hstops := fill_stops step (goes status) (room - s.2.length) s.1 input
    have hmore : k ≤ (steps step start (h ++ input.take
        (fill step (goes status) (room - s.2.length) s.1 input).1)).2.length := by
      rw [steps_append, List.length_append]
      exact hs.2.1.trans (Nat.le_add_right _ _)
    rw [ofSteps_status, zlibSteps, hcons] at hgood
    rw [zlibSteps]
    unfold inflateSteps
    dsimp only
    generalize fill step (goes status) (room - s.2.length) s.1 input = f at *
    generalize hT : steps step start (h ++ input.take f.1) = T at *
    have hlen : (s.2 ++ f.2.2).length = T.2.length - k := by rw [htext, List.length_drop]
    have hpending : (s.2 ++ f.2.2).length = s.2.length + f.2.2.length := List.length_append
    generalize s.2 ++ f.2.2 = text at *
    constructor <;> dsimp only [ofSteps_text, ofSteps_status]
    case state =>
      refine ⟨hT ▸ hstate, ?_, ?_⟩
      · rw [hT, List.length_take]
        omega
      · rw [hT, ← List.drop_drop, ← htext, List.length_take]
        by_cases hroom : room ≤ text.length
        · rw [Nat.min_eq_left hroom]
        · rw [Nat.min_eq_right (by omega), List.drop_length, List.drop_of_length_le (by omega)]
    case out =>
      rw [hT, ← htext]
      exact List.take_prefix room text
    case all =>
      intro hshort
      rw [hT]
      rw [List.length_take] at hshort ⊢
      refine ⟨by omega, ?_⟩
      rcases hstops with hall | hend | hfull
      · exact .inl hall
      · rw [hstate] at hend
        cases hst : status T.1 with
        | going => simp [goes, hst] at hend
        | final => exact .inr rfl
        | bad => exact absurd hst hgood
      · omega
    case ended =>
      rw [hT, if_neg (hstate ▸ hgood), hstate, List.length_take]
      constructor
      · intro hres
        split_ifs at hres with hfin
        exact ⟨hfin.1, by omega⟩
      · rintro ⟨hfin, hgiven⟩
        exact if_pos ⟨hfin, by omega⟩
    case stuck =>
      intro hres
      split_ifs at hres with _ _ hnone
      exact hnone

end

-- ---- stored blocks ----

-- Where a stream of stored blocks stands: in a header (BFINAL, LEN and NLEN, low bytes first), or
-- with `n` bytes of data to come.
inductive Block where
  | start
  | len (fin : Bool)
  | lenHigh (fin : Bool) (low : Byte)
  | check (fin : Bool) (low high : Byte)
  | checkHigh (fin : Bool) (low high : Byte)
  | data (fin : Bool) (n : Nat)
  | over
  | broken
  deriving DecidableEq, Repr

-- A block of which `n` bytes are to come.
def Block.upTo (fin : Bool) : Nat → Block
  | 0 => if fin then .over else .start
  | n + 1 => .data fin (n + 1)

-- Blocks of the other types are not read.
def Block.step : Block → Byte → Block × Bytes
  | .start, b => (if b &&& 0x06 = 0 then .len (b &&& 0x01 == 1) else .broken, [])
  | .len fin, b => (.lenHigh fin b, [])
  | .lenHigh fin low, b => (.check fin low b, [])
  | .check fin low high, b => (if b = ~~~low then .checkHigh fin low high else .broken, [])
  | .checkHigh fin low high, b =>
      (if b = ~~~high then .upTo fin (low.toNat + 256 * high.toNat) else .broken, [])
  | .data fin n, b => (.upTo fin (n - 1), [b])
  | .over, _ => (.over, [])
  | .broken, _ => (.broken, [])

def Block.status : Block → Reading
  | .over => .final
  | .broken => .bad
  | _ => .going

def stored : Decoder Byte Byte := ofSteps .start Block.step Block.status

def zlibStored : Zlib (Block × Bytes) Unit := zlibSteps .start Block.step Block.status

instance decidableGoing (h input : Bytes) : Decidable (stored.Going h input) :=
  decidable_of_iff _ (stays_iff .start Block.step Block.status h input)

theorem zlibStored_inflates : zlibStored.Inflates stored (StepsAt .start Block.step) :=
  zlibSteps_inflates

-- Between two blocks.
def AtStart (b : Bytes) : Prop := (steps Block.step .start b).1 = .start

instance decidableAtStart (b : Bytes) : Decidable (AtStart b) :=
  inferInstanceAs (Decidable (_ = _))

theorem stored_restarts : stored.Restarts AtStart :=
  ofSteps_restarts Block.start Block.step Block.status

-- One stored block, and the first byte of the empty one that a sync flush appends.
def storedMessage (data : Bytes) : Bytes :=
  [0x00, UInt8.ofNat data.length, UInt8.ofNat (data.length / 256), ~~~UInt8.ofNat data.length,
    ~~~UInt8.ofNat (data.length / 256)] ++ data ++ [0x00]

-- ---- a server with compression ----

namespace Conn

def packedServer : Env (Block × Bytes) Unit :=
  { plainServer with enableDeflate := true, zlib := zlibStored }

theorem packedServer_gentle : packedServer.Gentle := by
  constructor <;> (intro script h; cases h; simp)

def packedRequest : Bytes :=
  ascii "GET /chat HTTP/1.1\r\nHost: a\r\nUpgrade: websocket\r\nConnection: Upgrade\r\n" ++
    ascii "Sec-WebSocket-Key: dGhlIHNhbXBsZSBub25jZQ==\r\nSec-WebSocket-Version: 13\r\n" ++
    ascii "Sec-WebSocket-Extensions: permessage-deflate\r\n\r\n"

def packedOpen : Conn (Block × Bytes) Unit :=
  run packedServer (start [] 0 [] 1) [.streamOpened, .data packedRequest]

theorem packedOpen_eq : packedOpen =
    { (start [] 0 [] 1 : Conn (Block × Bytes) Unit) with
      state := .opened
      stream := .opened
      deflate := some ⟨(), (.start, []), false, false, 15, 15⟩
      log :=
        [.state .handshake, .alloc true,
          .upgradeOut (ascii "HTTP/1.1 101 Switching Protocols\r\n" ++ ascii "Upgrade: websocket\r\n" ++
            ascii "Connection: Upgrade\r\n" ++ ascii "Sec-WebSocket-Accept: " ++
            ascii "s3pPLMBiTxaQ9kYGzzhZRbK+xOo=\r\n" ++ ascii "Sec-WebSocket-Extensions: " ++
            ascii "permessage-deflate\r\n\r\n") .ok,
          .state .opened, .onOpen, .openReturned] } := by
  decide +kernel

inductive DataKind where
  | cont | text | binary

def DataKind.opcode : DataKind → Nat
  | .cont => Opcode.cont
  | .text => Opcode.text
  | .binary => Opcode.binary

theorem DataKind.opcode_lt (kind : DataKind) : kind.opcode < 16 := by
  cases kind <;> decide

theorem short_fits {n : Nat} (h : n < 2048) : n < 9223372036854775808 :=
  h.trans (by decide)

-- A data frame of a client.
def clientFrame (fin rsv1 : Bool) (kind : DataKind) (payload : Bytes) (h : payload.length < 2048) :
    WireFrame :=
  ⟨fin, rsv1, kind.opcode, some ⟨0x0F, 0x1E, 0x2D, 0x3C⟩, payload, kind.opcode_lt, short_fits h⟩

end Conn

end Sevent.Ws
