import Sevent.Ws.Mild
import Sevent.Ws.Work
import Sevent.Ws.Wire

-- The frame loop over legal frames that arrive in pushes of any size. What becomes of the frames
-- is left open: a reader says what holds between two frames and inside a streamed one, and that
-- each frame takes the one to the other.
namespace Sevent.Ws

variable {σ δ : Type}

theorem append_split {a b c d : Bytes} (h : a ++ b = c ++ d) (hl : c.length ≤ a.length) :
    ∃ x, a = c ++ x ∧ d = x ++ b := by
  rcases List.append_eq_append_iff.mp h with ⟨x, hc, hb⟩ | h
  · have hx : x = [] := by
      rw [hc, List.length_append] at hl
      exact List.eq_nil_of_length_eq_zero (by omega)
    exact ⟨[], by simp [hc, hx], by simp [hb, hx]⟩
  · exact h

open Conn

namespace Conn

-- ---- the next frame in the buffer ----

theorem look_wire (env : Env σ δ) {c : Conn σ δ} {f : WireFrame} {fut rest : Bytes}
    (h : c.recv ++ fut = f.bytes ++ rest) :
    c.look env =
      if c.recv.length < f.head.length then .more
      else if c.recv.length < f.bytes.length then
        if f.bytes.length > env.recvCap / 2 then .large f.header f.head.length else .more
      else .whole f.header f.head.length := by
  rw [WireFrame.bytes, List.append_assoc] at h
  unfold look
  by_cases hs : c.recv.length < f.head.length
  · have hp : c.recv <+: f.head := by
      obtain ⟨x, hx, -⟩ := append_split h.symm hs.le
      exact ⟨x, hx.symm⟩
    rw [if_pos hs, f.parseHeader_short c.recv hp hs]
  · obtain ⟨x, hx, -⟩ := append_split h (by omega)
    have hlen := f.bytes_length
    have hhead := f.head_length_le
    have hlt := f.length_lt
    rw [if_neg hs, hx, f.parseHeader_head x, ← hx, hlen]
    dsimp only [WireFrame.header]
    rw [if_neg]
    simp only [sizeMax]
    omega

theorem framePayload_wire {c : Conn σ δ} {f : WireFrame} {x : Bytes}
    (h : c.recv = f.bytes ++ x) : framePayload f.header f.head.length c = f.payload := by
  have hraw : (c.recv.drop f.head.length).take f.payload.length = f.body := by
    rw [h, WireFrame.bytes, List.append_assoc, List.drop_left, ← f.body_length, List.take_left]
  unfold framePayload
  simp only [WireFrame.header, hraw]
  unfold WireFrame.body
  cases f.key with
  | none => rfl
  | some key => exact applyMaskOffset_self key 0 f.payload

theorem unmaskFrame_wire {c : Conn σ δ} {f : WireFrame} {x : Bytes} (h : c.recv = f.bytes ++ x) :
    unmaskFrame f.header f.head.length c = { c with recv := f.head ++ f.payload ++ x } := by
  have hdrop : c.recv.drop (f.head.length + f.payload.length) = x := by
    rw [h, ← f.bytes_length, List.drop_left]
  have htake : c.recv.take f.head.length = f.head := by
    rw [h, WireFrame.bytes, List.append_assoc, List.take_left]
  unfold unmaskFrame
  rw [framePayload_wire h, htake]
  simp only [WireFrame.header, hdrop]

theorem consumeFrame_wire {c : Conn σ δ} {f : WireFrame} {x : Bytes}
    (h : c.recv = f.head ++ f.payload ++ x) :
    consumeFrame f.header f.head.length c = { c with recv := x } := by
  unfold consumeFrame
  simp only [WireFrame.header, h]
  rw [← List.length_append, List.drop_left]

end Conn

-- ---- readers ----

-- The payload of a streamed frame, as its bytes are in the buffer.
def Conn.veil (c : Conn σ δ) (r : Bytes) : Bytes :=
  if c.streamMask then applyMaskOffset c.streamMaskKey c.streamMaskOff r else r

-- The connection after a part of the payload of a streamed frame.
structure Conn.Advanced (c c' : Conn σ δ) (n : Nat) : Prop where
  remaining : c'.streamRemaining = c.streamRemaining - n
  mask : c'.streamMask = c.streamMask
  maskKey : c'.streamMaskKey = c.streamMaskKey
  maskOff : c'.streamMaskOff = c.streamMaskOff + n

-- `Mid c fs`: between two frames, with `fs` to come. `In c r fs`: in a streamed frame, with `r` of
-- its payload to come. `Given err c`: the frame loop gives up with an error. `Fair c`: what holds
-- once the connection is over. `Clean` is what the log of a run must not show.
structure Reader (env : Env σ δ) where
  Clean : List Event → Prop
  Mid : Conn σ δ → List WireFrame → Prop
  In : Conn σ δ → Bytes → List WireFrame → Prop
  Given : Int → Conn σ δ → Prop
  Fair : Conn σ δ → Prop
  clean_mono : ∀ {log log' : List Event}, log <+: log' → Clean log' → Clean log
  mid_fair : ∀ {c : Conn σ δ} {fs}, Mid c fs → c.state = .closed → Fair c
  in_fair : ∀ {c : Conn σ δ} {r fs}, In c r fs → c.state = .closed → Fair c
  in_mode : ∀ {c : Conn σ δ} {r fs}, In c r fs → c.msg.mode = .stream
  fair_aside : ∀ {c c' : Conn σ δ}, Fair c → Aside c c' → Fair c'
  given_fatal : ∀ {c : Conn σ δ} {err}, c.destroyed = false → Given err c →
    Fair (fatal env (notify env) err c)
  -- more bytes arrive
  mid_data : ∀ {c : Conn σ δ} {fs} (b : Bytes), Mid c fs →
    Mid ({ c with recv := c.recv ++ b }.emit .frameData) fs
  in_data : ∀ {c : Conn σ δ} {r fs} (b : Bytes), In c r fs →
    In ({ c with recv := c.recv ++ b }.emit .frameData) r fs
  whole : ∀ {c : Conn σ δ} {f fs x}, c.destroyed = false → c.state ≠ .closed →
    Mid c (f :: fs) → c.recv = f.bytes ++ x → c.recv.length ≤ env.recvCap →
    Clean (wholeFrame env f.header f.head.length c).2.log →
    ((wholeFrame env f.header f.head.length c).1 = .goOn ∧
      (wholeFrame env f.header f.head.length c).2.recv = x ∧
      (wholeFrame env f.header f.head.length c).2.streamRemaining = c.streamRemaining ∧
      (Mid (wholeFrame env f.header f.head.length c).2 fs ∨
        (wholeFrame env f.header f.head.length c).2.state = .closed ∧
        Fair (wholeFrame env f.header f.head.length c).2)) ∨
    ∃ r, (wholeFrame env f.header f.head.length c).1 = .ret r ∧ r ≠ 0 ∧
      Given r (wholeFrame env f.header f.head.length c).2
  begin : ∀ {c : Conn σ δ} {f fs x}, c.destroyed = false → c.state ≠ .closed →
    Mid c (f :: fs) → c.recv = f.head ++ x → env.recvCap / 2 < f.bytes.length → 125 < f.payload.length →
    Clean (beginStream env f.header f.head.length c).2.log →
    ∃ c', beginStream env f.header f.head.length c = (none, streamConsume env c') ∧
      c'.destroyed = false ∧ In c' f.payload fs ∧ c'.recv = x ∧
      c'.streamRemaining = f.payload.length ∧ ∀ r, c'.veil r =
        match f.key with
        | none => r
        | some key => applyMask key r
  consume : ∀ {c : Conn σ δ} {a b x fs}, c.destroyed = false → In c (a ++ b) fs → a ≠ [] →
    c.recv = c.veil a ++ x → b = [] ∨ x = [] → c.streamRemaining = a.length + b.length →
    c.recv.length ≤ env.recvCap → Clean (streamConsume env c).log →
    (streamConsume env c).recv = x ∧
      (b = [] → Mid (streamConsume env c) fs ∧ (streamConsume env c).streamRemaining = 0) ∧
      (b ≠ [] → In (streamConsume env c) b fs ∧ Advanced c (streamConsume env c) a.length)

theorem Conn.veil_length (c : Conn σ δ) (r : Bytes) : (c.veil r).length = r.length := by
  unfold Conn.veil
  split
  · exact applyMaskOffset_length _ _ _
  · rfl

theorem Conn.veil_append (c : Conn σ δ) (a b : Bytes) {c' : Conn σ δ}
    (h : Conn.Advanced c c' a.length) : c.veil (a ++ b) = c.veil a ++ c'.veil b := by
  unfold Conn.veil
  rw [h.mask, h.maskKey, h.maskOff]
  split
  · exact applyMaskOffset_append _ _ a b
  · rfl

theorem Conn.veil_veil (c : Conn σ δ) (r : Bytes) : c.veil (c.veil r) = r := by
  unfold Conn.veil
  split
  · exact applyMaskOffset_self _ _ r
  · rfl

-- ---- one turn of stream_consume ----

namespace Conn

-- The chunk has been consumed.
def advance (n : Nat) (c : Conn σ δ) : Conn σ δ :=
  { c with
    recv := c.recv.drop n
    streamRemaining := c.streamRemaining - n
    streamMaskOff := c.streamMaskOff + n }

-- The chunk has been handed to on_message.
def handed (env : Env σ δ) (a : Bytes) (last : Bool) (c : Conn σ δ) : Conn σ δ :=
  let c := message env .streamConsume a c.isBin last (if last then c.msg.total else 0) c
  if last then { c with msg := { c.msg with finSent := true } } else c

variable {env : Env σ δ}

theorem handed_calm (hg : env.Gentle) (a : Bytes) (last : Bool) {c : Conn σ δ}
    (hd : c.destroyed = false) : Calm c (handed env a last c) := by
  cases last with
  | true =>
      have h := message_calm hg .streamConsume a c.isBin true c.msg.total hd
      exact h.trans (.same h.destroyed rfl rfl rfl rfl)
  | false => exact message_calm hg .streamConsume a c.isBin false 0 hd

-- `a` is what the buffer holds of the payload, and `b` what is to come.
theorem streamChunks_turn {c : Conn σ δ} {a b x : Bytes} (hd : c.destroyed = false) (ha : a ≠ [])
    (hrecv : c.recv = c.veil a ++ x) (hend : b = [] ∨ x = [])
    (hrem : c.streamRemaining = a.length + b.length) (hroom : c.recv.length ≤ env.recvCap)
    (hm : env.onMessage.isSome = true) :
    ∃ fuel, streamChunks env c.recv.length c =
      if c.msg.compressed then
        let r := decompressStreamChunk env a c.isBin { c with recv := a ++ x }
        if r.1 ≠ 0 then (false, r.2) else streamChunks env fuel (r.2.advance a.length)
      else
        let c' := handed env a (decide (b = []) && c.streamFin) { c with recv := a ++ x }
        if c'.destroyed then (false, c') else streamChunks env fuel (c'.advance a.length) := by
  have hpos : 0 < a.length := List.length_pos_iff.mpr ha
  have hlen : c.recv.length = a.length + x.length := by
    rw [hrecv, List.length_append, c.veil_length]
  have hchunk : min (min c.recv.length env.recvCap) c.streamRemaining = a.length := by
    rcases hend with hb | hx
    · simp only [hb, List.length_nil] at hrem
      omega
    · simp only [hx, List.length_nil] at hlen
      omega
  have hlast : (a.length == c.streamRemaining) = decide (b = []) := by
    rw [Bool.eq_iff_iff, beq_iff_eq, decide_eq_true_eq, hrem, ← List.length_eq_zero_iff]
    omega
  have htake : c.recv.take a.length = c.veil a := by
    rw [hrecv, ← c.veil_length a, List.take_left]
  have hdrop : c.recv.drop a.length = x := by
    rw [hrecv, ← c.veil_length a, List.drop_left]
  have hdata : (if c.streamMask = true then
      applyMaskOffset c.streamMaskKey c.streamMaskOff (c.veil a) else c.veil a) = a := c.veil_veil a
  obtain ⟨fuel, hfuel⟩ : ∃ fuel, c.recv.length = fuel + 1 := ⟨c.recv.length - 1, by omega⟩
  refine ⟨fuel, ?_⟩
  conv => lhs; rw [hfuel]; unfold streamChunks
  rw [if_neg, if_neg (by simp [hd])]
  · simp only [hchunk, hlast, htake, hdrop, hdata, hm, if_true]
    rfl
  · rintro (hnil | hz)
    · rw [hnil] at hfuel
      cases hfuel
    · omega

end Conn

namespace Reader

variable {env : Env σ δ} (R : Reader env)

-- `fut` are the bytes that have not been pushed yet.
structure Between (fut : Bytes) (c : Conn σ δ) (fs : List WireFrame) : Prop where
  alive : c.destroyed = false
  mid : R.Mid c fs
  remaining : c.streamRemaining = 0
  bytes : c.recv ++ fut = wire fs
  room : c.recv.length ≤ env.recvCap

structure Within (fut : Bytes) (c : Conn σ δ) (r : Bytes) (fs : List WireFrame) : Prop where
  alive : c.destroyed = false
  inside : R.In c r fs
  remaining : c.streamRemaining = r.length
  more : r ≠ []
  bytes : c.recv ++ fut = c.veil r ++ wire fs
  room : c.recv.length ≤ env.recvCap

-- CLOSED between two frames: the rest of the buffer is not read.
structure Halted (c : Conn σ δ) : Prop where
  alive : c.destroyed = false
  closed : c.state = .closed
  remaining : c.streamRemaining = 0
  fair : R.Fair c

def Track (fut : Bytes) (c : Conn σ δ) : Prop :=
  (∃ fs, R.Between fut c fs) ∨ (∃ r fs, R.Within fut c r fs) ∨ R.Halted c

-- Nothing more can be done with the buffer.
def Rests (fut : Bytes) (c : Conn σ δ) : Prop :=
  (∃ fs, R.Between fut c fs ∧ (c.recv = [] ∨ c.look env = .more)) ∨
    (∃ r fs, R.Within fut c r fs ∧ c.recv = [])

variable {R}

theorem Between.halted {fut : Bytes} {c : Conn σ δ} {fs} (h : R.Between fut c fs)
    (hc : c.state = .closed) : R.Halted c :=
  ⟨h.alive, hc, h.remaining, R.mid_fair h.mid hc⟩

theorem Rests.track {fut : Bytes} {c : Conn σ δ} (h : R.Rests fut c) : R.Track fut c := by
  rcases h with ⟨fs, h, -⟩ | ⟨r, fs, h, -⟩
  · exact .inl ⟨fs, h⟩
  · exact .inr (.inl ⟨r, fs, h⟩)

theorem Rests.fair {fut : Bytes} {c : Conn σ δ} (h : R.Rests fut c) (hc : c.state = .closed) :
    R.Fair c := by
  rcases h with ⟨fs, h, -⟩ | ⟨r, fs, h, -⟩
  · exact R.mid_fair h.mid hc
  · exact R.in_fair h.inside hc

variable (R) in
-- The reader does not mind where the connection is given up.
def Lax : Prop := (∀ c fs, R.Mid c fs → R.Fair c) ∧ ∀ c r fs, R.In c r fs → R.Fair c

theorem Track.alive {fut : Bytes} {c : Conn σ δ} (h : R.Track fut c) : c.destroyed = false := by
  rcases h with ⟨fs, h⟩ | ⟨r, fs, h⟩ | h
  · exact h.alive
  · exact h.alive
  · exact h.alive

-- A buffer that waits for more is short.
theorem Rests.short {fut : Bytes} {c : Conn σ δ} (h : R.Rests fut c) (hcap : 1024 ≤ env.recvCap) :
    c.recv.length ≤ env.recvCap / 2 := by
  rcases h with ⟨fs, h, hnil | hlook⟩ | ⟨r, fs, h, hnil⟩
  · simp [hnil]
  · cases fs with
    | nil =>
        have hnil := (List.append_eq_nil_iff.mp h.bytes).1
        simp [hnil]
    | cons f fs =>
        rw [look_wire env (by simpa using h.bytes)] at hlook
        have hhead := f.head_length_le
        split_ifs at hlook <;> omega
  · simp [hnil]

-- ---- streamed frames ----

theorem streamConsume_idle {c : Conn σ δ} (hr : c.recv = []) (hrem : c.streamRemaining ≠ 0) :
    streamConsume env c = c := by
  unfold streamConsume
  rw [hr]
  simp [streamChunks, hrem]

variable (R) in
-- How a run of the frame loop ends: it waits for more, or the connection is over.
def Ends (fut : Bytes) (n : Nat) (r : Int × Conn σ δ) : Prop :=
  r.1 = 0 ∧ (R.Rests fut r.2 ∨ R.Halted r.2) ∧ r.2.recv.length ≤ n ∨
    r.1 ≠ 0 ∧ R.Given r.1 r.2

theorem Ends.mono {fut : Bytes} {n n' : Nat} {r : Int × Conn σ δ} (h : R.Ends fut n r)
    (hn : n ≤ n') : R.Ends fut n' r := by
  rcases h with ⟨h0, hr, hlen⟩ | h
  · exact .inl ⟨h0, hr, hlen.trans hn⟩
  · exact .inr h

section

variable (hg : env.Gentle) (hm : env.onMessage.isSome = true) (hcap : 1024 ≤ env.recvCap)

include hg hm

-- The rest of the payload is in the buffer.
theorem Within.consume_all {fut : Bytes} {c : Conn σ δ} {r fs} (h : R.Within fut c r fs)
    (hall : r.length ≤ c.recv.length) (hclean : R.Clean (streamConsume env c).log) :
    R.Between fut (streamConsume env c) fs ∧
      (streamConsume env c).recv.length < c.recv.length := by
  have hmild := streamConsume_calm hg hm h.alive
  have hroom := h.room
  obtain ⟨x, hx, hw⟩ := append_split h.bytes (by rw [veil_length]; exact hall)
  obtain ⟨hrecv, hend, -⟩ := R.consume (b := []) h.alive (by simpa using h.inside) h.more hx
    (.inl rfl) (by simpa using h.remaining) hroom hclean
  obtain ⟨hmid, hrem⟩ := hend rfl
  have hlen : c.recv.length = r.length + x.length := by rw [hx, List.length_append, veil_length]
  have hr : 0 < r.length := List.length_pos_iff.mpr h.more
  refine ⟨⟨hmild.destroyed, hmid, hrem, by rw [hrecv, hw], ?_⟩, ?_⟩
  · rw [hrecv]
    omega
  · rw [hrecv]
    omega

-- Every byte of the buffer is payload.
theorem Within.consume_part {fut : Bytes} {c : Conn σ δ} {r fs} (h : R.Within fut c r fs)
    (hne : c.recv ≠ []) (hlt : c.recv.length < r.length)
    (hclean : R.Clean (streamConsume env c).log) :
    (streamConsume env c).recv = [] ∧ ∃ r', R.Within fut (streamConsume env c) r' fs := by
  have hmild := streamConsume_calm hg hm h.alive
  have hpos : 0 < c.recv.length := List.length_pos_iff.mpr hne
  generalize ha : r.take c.recv.length = a at *
  generalize hb : r.drop c.recv.length = b at *
  have hr : r = a ++ b := by rw [← ha, ← hb, List.take_append_drop]
  have halen : a.length = c.recv.length := by
    rw [← ha, List.length_take]
    omega
  have hbne : b ≠ [] := by
    intro hnil
    rw [hnil, List.drop_eq_nil_iff] at hb
    omega
  have hane : a ≠ [] := by
    intro hnil
    simp [hnil] at halen
    omega
  have hadv : ∀ c', Advanced c c' a.length → c.veil r = c.veil a ++ c'.veil b := fun c' h' => by
    rw [hr, veil_append c a b h']
  have hself := hadv { c with
    streamRemaining := c.streamRemaining - a.length
    streamMaskOff := c.streamMaskOff + a.length } ⟨rfl, rfl, rfl, rfl⟩
  have hbytes := h.bytes
  rw [hself, List.append_assoc] at hbytes
  obtain ⟨x, hx, -⟩ := append_split hbytes (by rw [veil_length]; omega)
  have hxnil : x = [] := by
    have := congrArg List.length hx
    rw [List.length_append, veil_length] at this
    exact List.eq_nil_of_length_eq_zero (by omega)
  have hrem := h.remaining
  rw [hr, List.length_append] at hrem
  obtain ⟨hrecv, -, hgo⟩ := R.consume h.alive (hr ▸ h.inside) hane hx (.inr hxnil) hrem h.room hclean
  obtain ⟨hin, hadvanced⟩ := hgo hbne
  rw [hxnil] at hrecv
  refine ⟨hrecv, b, ⟨hmild.destroyed, hin, ?_, hbne, ?_, by simp [hrecv]⟩⟩
  · rw [hadvanced.remaining, hrem]
    omega
  · have hb := h.bytes
    rw [hadv _ hadvanced, hx, hxnil, List.append_nil, List.append_assoc] at hb
    rw [hrecv]
    exact List.append_cancel_left hb

include hcap

-- A large frame of which only the beginning has come.
theorem Between.begin {fut : Bytes} {c : Conn σ δ} {f fs} (h : R.Between fut c (f :: fs))
    (hs : c.state ≠ .closed) (hhead : f.head.length ≤ c.recv.length)
    (hpart : c.recv.length < f.bytes.length) (hbig : env.recvCap / 2 < f.bytes.length)
    (hclean : R.Clean (beginStream env f.header f.head.length c).2.log) :
    (beginStream env f.header f.head.length c).1 = none ∧
      (beginStream env f.header f.head.length c).2.recv = [] ∧
      ∃ r, R.Within fut (beginStream env f.header f.head.length c).2 r fs := by
  have hlen := f.bytes_length
  have hle := f.head_length_le
  have hbytes := h.bytes
  rw [wire_cons, WireFrame.bytes, List.append_assoc] at hbytes
  obtain ⟨x, hx, hw⟩ := append_split hbytes hhead
  have hxlen : c.recv.length = f.head.length + x.length := by rw [hx, List.length_append]
  obtain ⟨c', heq, hd, hin, hrecv, hrem, hveil⟩ := R.begin h.alive hs h.mid hx hbig (by omega) hclean
  have hbody : c'.veil f.payload = f.body := hveil f.payload
  have hpos : 0 < f.payload.length := by omega
  have hroom := h.room
  have hwithin : R.Within fut c' f.payload fs :=
    ⟨hd, hin, hrem, List.length_pos_iff.mp hpos, by rw [hrecv, hbody, ← hw], by rw [hrecv]; omega⟩
  rw [heq] at hclean ⊢
  refine ⟨rfl, ?_⟩
  by_cases hnil : c'.recv = []
  · rw [streamConsume_idle hnil (by omega)]
    exact ⟨hnil, f.payload, hwithin⟩
  · exact hwithin.consume_part hg hm hnil (by rw [hrecv]; omega) hclean

-- ---- the loops ----

theorem processFrames_ends {fut : Bytes} (fuel : Nat) {c : Conn σ δ} {fs} (h : R.Between fut c fs)
    (hfuel : c.recv.length ≤ fuel) (hclean : R.Clean (processFrames env fuel c).2.log) :
    R.Ends fut c.recv.length (processFrames env fuel c) := by
  induction fuel generalizing c fs with
  | zero =>
      have hnil : c.recv = [] := List.eq_nil_of_length_eq_zero (by omega)
      exact .inl ⟨rfl, .inl (.inl ⟨fs, h, .inl hnil⟩), le_rfl⟩
  | succ fuel ih =>
      unfold processFrames at hclean ⊢
      by_cases hstop : c.recv = [] ∨ c.state = .closed
      · rw [if_pos hstop]
        refine .inl ⟨rfl, ?_, le_rfl⟩
        rcases hstop with hnil | hcl
        · exact .inl (.inl ⟨fs, h, .inl hnil⟩)
        · exact .inr (h.halted hcl)
      rw [if_neg hstop, if_neg (by simp [h.alive])] at hclean ⊢
      obtain ⟨hne, hopen⟩ := not_or.mp hstop
      cases fs with
      | nil => exact absurd (List.append_eq_nil_iff.mp h.bytes).1 hne
      | cons f fs =>
          have hbytes : c.recv ++ fut = f.bytes ++ wire fs := h.bytes
          have hlook := look_wire env hbytes
          by_cases hhead : c.recv.length < f.head.length
          · rw [if_pos hhead] at hlook
            rw [hlook]
            exact .inl ⟨rfl, .inl (.inl ⟨f :: fs, h, .inr hlook⟩), le_rfl⟩
          rw [if_neg hhead] at hlook
          by_cases hpart : c.recv.length < f.bytes.length
          · rw [if_pos hpart] at hlook
            by_cases hbig : f.bytes.length > env.recvCap / 2
            · rw [if_pos hbig] at hlook
              rw [hlook] at hclean ⊢
              dsimp only at hclean ⊢
              have hstart := h.begin hg hm hcap hopen (by omega) hpart hbig
              rcases hb : beginStream env f.header f.head.length c with ⟨err, c'⟩
              rw [hb] at hclean hstart
              cases err with
              | some err => exact absurd (hstart hclean).1 (by simp)
              | none =>
                  obtain ⟨-, hnil, r, hwithin⟩ := hstart hclean
                  replace hnil : c'.recv = [] := hnil
                  exact .inl ⟨rfl, .inl (.inr ⟨r, fs, hwithin, hnil⟩), by simp [hnil]⟩
            · rw [if_neg hbig] at hlook
              rw [hlook]
              exact .inl ⟨rfl, .inl (.inl ⟨f :: fs, h, .inr hlook⟩), le_rfl⟩
          · rw [if_neg hpart] at hlook
            rw [hlook] at hclean ⊢
            dsimp only at hclean ⊢
            obtain ⟨x, hx, hw⟩ := append_split hbytes (by omega)
            have hxlen : c.recv.length = f.bytes.length + x.length := by
              rw [hx, List.length_append]
            have hpos : 0 < f.bytes.length := by
              have := f.head_length_le
              rw [f.bytes_length]
              omega
            have hroom := h.room
            have hmild := wholeFrame_mild hg hm f.header f.head.length h.alive
            have hframe := R.whole h.alive hopen h.mid hx hroom
            rcases hr : wholeFrame env f.header f.head.length c with ⟨next, c'⟩
            rw [hr] at hclean hframe hmild
            cases next with
            | goOn =>
                have hrest := processFrames_mild hg hm fuel hmild.destroyed
                rcases hframe (R.clean_mono hrest.log hclean) with
                  ⟨-, hrecv, hrem, hmid⟩ | ⟨r, hr, -⟩
                · simp only at hrecv hrem hmid
                  rcases hmid with hmid | ⟨hcl, hfair⟩
                  · have hnext : R.Between fut c' fs :=
                      ⟨hmild.destroyed, hmid, hrem.trans h.remaining, by rw [hrecv, hw],
                        by rw [hrecv]; omega⟩
                    exact (ih hnext (by rw [hrecv]; omega) hclean).mono (by rw [hrecv]; omega)
                  · have hstay : processFrames env fuel c' = (0, c') := by
                      cases fuel with
                      | zero => rfl
                      | succ fuel =>
                          unfold processFrames
                          rw [if_pos (.inr hcl)]
                    dsimp only
                    rw [hstay]
                    exact .inl ⟨rfl, .inr ⟨hmild.destroyed, hcl, hrem.trans h.remaining, hfair⟩,
                      by dsimp only; rw [hrecv]; omega⟩
                · cases hr
            | ret r =>
                rcases hframe hclean with ⟨hgo, -⟩ | ⟨r', hr', hne', hgiven⟩
                · cases hgo
                · cases hr'
                  exact .inr ⟨hne', hgiven⟩

-- The frames behind a streamed one.
theorem runFrames_ends {fut : Bytes} {c : Conn σ δ}
    (h : (∃ fs, R.Between fut c fs) ∨ R.Halted c) (hclean : R.Clean (runFrames env c).2.log) :
    R.Ends fut c.recv.length (runFrames env c) := by
  rcases h with ⟨fs, h⟩ | h
  · exact processFrames_ends hg hm hcap _ h le_rfl hclean
  · have hstay : runFrames env c = (0, c) := by
      unfold runFrames
      cases c.recv.length with
      | zero => rfl
      | succ fuel =>
          unfold processFrames
          rw [if_pos (.inr h.closed)]
    rw [hstay]
    exact .inl ⟨rfl, .inr h, le_rfl⟩

theorem streamLoop_ends {fut : Bytes} (fuel : Nat) {c : Conn σ δ} (h : R.Track fut c)
    (hfuel : c.recv.length < fuel) (hclean : R.Clean (streamLoop env fuel c).2.log) :
    R.Ends fut c.recv.length (streamLoop env fuel c) := by
  induction fuel generalizing c with
  | zero => omega
  | succ fuel ih =>
      unfold streamLoop at hclean ⊢
      by_cases hnil : c.recv = []
      · rw [if_pos hnil]
        refine .inl ⟨rfl, ?_, le_rfl⟩
        rcases h with ⟨fs, h⟩ | ⟨r, fs, h⟩ | h
        · exact .inl (.inl ⟨fs, h, .inl hnil⟩)
        · exact .inl (.inr ⟨r, fs, h, hnil⟩)
        · exact .inr h
      rw [if_neg hnil] at hclean ⊢
      extract_lets prev c₁ at hclean ⊢
      have hmild₁ : Mild c c₁ := by
        simp only [c₁]
        split
        · exact (streamConsume_calm hg hm h.alive).toMild
        · exact .refl h.alive
      -- one turn of the loop
      have hturn : R.Clean (if c₁.streamRemaining = 0 then runFrames env c₁ else (0, c₁)).2.log →
          R.Ends fut c.recv.length
            (if c₁.streamRemaining = 0 then runFrames env c₁ else (0, c₁)) := by
        intro hcl
        have hcl₁ : R.Clean c₁.log := by
          refine R.clean_mono ?_ hcl
          split
          · exact (processFrames_mild hg hm _ hmild₁.destroyed).log
          · exact List.prefix_rfl
        rcases h with ⟨fs, h⟩ | ⟨r, fs, h⟩ | h
        · have hc₁ : c₁ = c := if_neg (by simp [h.remaining])
          rw [hc₁, if_pos h.remaining] at hcl ⊢
          exact runFrames_ends hg hm hcap (.inl ⟨fs, h⟩) hcl
        · have hpos : 0 < r.length := List.length_pos_iff.mpr h.more
          have hc₁ : c₁ = streamConsume env c := if_pos (by rw [h.remaining]; exact hpos)
          rw [hc₁] at hcl hcl₁ ⊢
          by_cases hall : r.length ≤ c.recv.length
          · obtain ⟨hnext, hlt⟩ := h.consume_all hg hm hall hcl₁
            rw [if_pos hnext.remaining] at hcl ⊢
            exact (runFrames_ends hg hm hcap (.inl ⟨fs, hnext⟩) hcl).mono hlt.le
          · obtain ⟨hempty, r', hnext⟩ := h.consume_part hg hm hnil (by omega) hcl₁
            have hpos' : 0 < r'.length := List.length_pos_iff.mpr hnext.more
            rw [if_neg (by rw [hnext.remaining]; omega)]
            exact .inl ⟨rfl, .inl (.inr ⟨r', fs, hnext, hempty⟩), by simp [hempty]⟩
        · have hc₁ : c₁ = c := if_neg (by simp [h.remaining])
          rw [hc₁, if_pos h.remaining] at hcl ⊢
          exact runFrames_ends hg hm hcap (.inr h) hcl
      have hmild₂ : Mild c₁ (if c₁.streamRemaining = 0 then runFrames env c₁ else (0, c₁)).2 := by
        split
        · exact processFrames_mild hg hm _ hmild₁.destroyed
        · exact .refl hmild₁.destroyed
      generalize (if c₁.streamRemaining = 0 then runFrames env c₁ else (0, c₁)) = t at *
      dsimp only at hclean ⊢
      by_cases hsame : t.2.recv.length = prev
      · rw [if_pos hsame] at hclean ⊢
        exact hturn hclean
      rw [if_neg hsame] at hclean ⊢
      by_cases herr : t.1 ≠ 0
      · rw [if_pos herr] at hclean ⊢
        exact hturn hclean
      · rw [if_neg herr] at hclean ⊢
        have hrest := streamLoop_mild hg hm fuel hmild₂.destroyed
        rcases hturn (R.clean_mono hrest.log hclean) with ⟨-, hnext, hlen⟩ | ⟨hne, -⟩
        · have hlt : t.2.recv.length < c.recv.length := by
            have : prev = c.recv.length := rfl
            omega
          have htrack : R.Track fut t.2 := hnext.elim Rests.track fun h => .inr (.inr h)
          exact (ih htrack (by omega) hclean).mono hlt.le
        · exact absurd hne herr

-- ---- pushes ----

-- After a push: the connection waits for the next one, or it is over.
theorem frameData_ends {fut : Bytes} {c : Conn σ δ} (h : R.Track fut (c.emit .frameData))
    (hmode : (∃ fs, R.Between fut (c.emit .frameData) fs) ∨ c.msg.mode = .stream)
    (hclean : R.Clean (frameData env c).log) :
    R.Rests fut (frameData env c) ∨ (frameData env c).state = .closed ∧ R.Fair (frameData env c) := by
  unfold frameData at hclean ⊢
  extract_lets c₀ at hclean ⊢
  have hends : R.Clean (if c₀.msg.mode = .stream then streamLoop env (c₀.recv.length + 1) c₀
      else runFrames env c₀).2.log →
      R.Ends fut c₀.recv.length (if c₀.msg.mode = .stream then
        streamLoop env (c₀.recv.length + 1) c₀ else runFrames env c₀) := by
    intro hcl
    by_cases hs : c₀.msg.mode = .stream
    · rw [if_pos hs] at hcl ⊢
      exact streamLoop_ends hg hm hcap _ h (Nat.lt_succ_self _) hcl
    · rw [if_neg hs] at hcl ⊢
      exact runFrames_ends hg hm hcap (.inl (hmode.resolve_right hs)) hcl
  have hmild : Mild c₀ (if c₀.msg.mode = .stream then streamLoop env (c₀.recv.length + 1) c₀
      else runFrames env c₀).2 := by
    split
    · exact streamLoop_mild hg hm _ h.alive
    · exact processFrames_mild hg hm _ h.alive
  generalize (if c₀.msg.mode = .stream then streamLoop env (c₀.recv.length + 1) c₀
    else runFrames env c₀) = r at *
  dsimp only at hclean ⊢
  have hfatal : Ended r.2 (fatal env (notify env) r.1 r.2) :=
    fatal_ended (fun n _ hd _ => notify_aside hg n hd) r.1 hmild.destroyed
  by_cases herr : r.1 ≠ 0
  · rw [if_pos herr] at hclean ⊢
    rcases hends (R.clean_mono hfatal.silent.log_grows hclean) with ⟨h0, -⟩ | ⟨-, hgiven⟩
    · exact absurd h0 herr
    · exact .inr ⟨hfatal.state, R.given_fatal hmild.destroyed hgiven⟩
  · rw [if_neg herr] at hclean ⊢
    rcases hends hclean with ⟨-, hrests | hhalted, -⟩ | ⟨hne, -⟩
    · exact .inl hrests
    · exact .inr ⟨hhalted.closed, hhalted.fair⟩
    · exact absurd hne herr

theorem onData_ends {fut d : Bytes} {c : Conn σ δ} (h : R.Rests (d ++ fut) c)
    (hstate : c.state = .opened ∨ c.state = .closing)
    (hd : d.length ≤ env.recvCap / 2 ∨ R.Lax)
    (hclean : R.Clean (onData env d c).log) :
    R.Rests fut (onData env d c) ∨ (onData env d c).state = .closed ∧ R.Fair (onData env d c) := by
  have hshort := h.short hcap
  have hlive : c.gone = false := by
    rcases hstate with hs | hs <;> simp [gone, h.track.alive, hs]
  unfold onData at hclean ⊢
  rw [if_neg (by simp [hlive])] at hclean ⊢
  by_cases hover : c.recv.length + d.length > env.recvCap
  · rw [if_pos hover]
    have hlax := hd.resolve_left (by omega)
    have hfair : R.Fair c := by
      rcases h with ⟨fs, h, -⟩ | ⟨r, fs, h, -⟩
      · exact hlax.1 _ _ h.mid
      · exact hlax.2 _ _ _ h.inside
    have hfatal : Ended c (fatal env (notify env) Err.wsProtocol c) :=
      fatal_ended (fun n _ hd _ => notify_aside hg n hd) Err.wsProtocol h.track.alive
    exact .inr ⟨hfatal.state, R.fair_aside hfair hfatal.aside⟩
  rw [if_neg hover] at hclean ⊢
  dsimp only at hclean ⊢
  rw [if_neg (by rcases hstate with hs | hs <;> simp [hs])] at hclean ⊢
  have hroom : (c.recv ++ d).length ≤ env.recvCap := by
    rw [List.length_append]
    omega
  rcases h with ⟨fs, h, -⟩ | ⟨r, fs, h, -⟩
  · have hnext : R.Between fut ({ c with recv := c.recv ++ d }.emit .frameData) fs :=
      ⟨h.alive, R.mid_data d h.mid, h.remaining, by simpa [emit] using h.bytes, hroom⟩
    exact frameData_ends hg hm hcap (.inl ⟨fs, hnext⟩) (.inl ⟨fs, hnext⟩) hclean
  · have hbytes := h.bytes
    rw [← List.append_assoc] at hbytes
    have hnext : R.Within fut ({ c with recv := c.recv ++ d }.emit .frameData) r fs :=
      ⟨h.alive, R.in_data d h.inside, h.remaining, h.more, hbytes, hroom⟩
    have hmode : c.msg.mode = .stream := R.in_mode h.inside
    exact frameData_ends hg hm hcap (.inr (.inl ⟨r, fs, hnext⟩)) (.inr hmode) hclean

omit hcap in
theorem onData_mild {d : Bytes} {c : Conn σ δ} (hd : c.destroyed = false)
    (hs : c.state ≠ .handshake) : Mild c (onData env d c) := by
  unfold onData
  split
  · exact .refl hd
  split
  · exact (fatal_ended (fun n _ hd _ => notify_aside hg n hd) _ hd).aside.toMild
  · dsimp only
    rw [if_neg hs]
    exact (Mild.refl hd).next (frameData_mild hg hm)

omit hcap in
theorem run_mild (pushes : List Bytes) {c : Conn σ δ} (hd : c.destroyed = false)
    (hs : c.state ≠ .handshake) : Mild c (run env c (pushes.map .data)) := by
  induction pushes generalizing c with
  | nil => exact .refl hd
  | cons d pushes ih =>
      have hstep : Mild c (step env c (.data d)) := by
        simp only [step]
        split
        · exact onData_mild hg hm hd hs
        · exact .refl hd
      refine hstep.trans (ih hstep.destroyed ?_)
      rcases hstep.state with h | ⟨-, h⟩ | h
      · rwa [h]
      · simp [h]
      · simp [h]

omit hg hm hcap in
-- A connection that is over reads nothing.
theorem run_closed (pushes : List Bytes) {c : Conn σ δ} (hc : c.state = .closed) :
    run env c (pushes.map .data) = c := by
  induction pushes with
  | nil => rfl
  | cons d pushes ih =>
      have hstep : step env c (.data d) = c := by
        simp only [step]
        split
        · unfold onData
          rw [if_pos (by simp [gone, hc])]
        · rfl
      change run env (step env c (.data d)) (pushes.map .data) = c
      rw [hstep]
      exact ih

-- The pushes of a run, from a connection that waits for more.
theorem run_ends {fut : Bytes} (pushes : List Bytes) {c : Conn σ δ}
    (h : R.Rests (pushes.flatten ++ fut) c)
    (hstate : c.state = .opened ∨ c.state = .closing) (hstream : c.stream = .opened)
    (hsmall : (∀ d ∈ pushes, d.length ≤ env.recvCap / 2) ∨ R.Lax)
    (hclean : R.Clean (run env c (pushes.map .data)).log) :
    ((run env c (pushes.map .data)).state = .closed ∧ R.Fair (run env c (pushes.map .data))) ∨
      R.Rests fut (run env c (pushes.map .data)) := by
  induction pushes generalizing c with
  | nil => exact .inr h
  | cons d pushes ih =>
      have hstep : step env c (.data d) = onData env d c := if_pos hstream
      have hrun : run env c ((d :: pushes).map .data) = run env (onData env d c) (pushes.map .data) := by
        rw [← hstep]
        rfl
      rw [hrun] at hclean ⊢
      have hmild : Mild c (onData env d c) :=
        onData_mild hg hm h.track.alive (by rcases hstate with hs | hs <;> simp [hs])
      have hlate : (onData env d c).state ≠ .handshake := by
        rcases hmild.state with hs | ⟨-, hs⟩ | hs
        · rcases hstate with h' | h' <;> simp [hs, h']
        · simp [hs]
        · simp [hs]
      have hrest := run_mild hg hm pushes hmild.destroyed hlate
      have hrests : R.Rests (d ++ (pushes.flatten ++ fut)) c := by
        rwa [List.flatten_cons, List.append_assoc] at h
      have hpush := onData_ends hg hm hcap hrests hstate
        (hsmall.imp_left fun h => h d (List.mem_cons_self ..)) (R.clean_mono hrest.log hclean)
      by_cases hc : (onData env d c).state = .closed
      · rw [run_closed pushes hc]
        exact .inl ⟨hc, hpush.elim (fun h => h.fair hc) fun h => h.2⟩
      · have hrests := hpush.resolve_right fun h => hc h.1
        refine ih hrests ?_ ?_ (hsmall.imp_left fun h e he => h e (List.mem_cons_of_mem _ he)) hclean
        · rcases hmild.state with hs | ⟨-, hs⟩ | hs
          · rwa [hs]
          · exact .inr hs
          · exact absurd hs hc
        · exact (hmild.stream.resolve_right hc).trans hstream

omit hg hm hcap in
-- With every byte pushed, nothing is left to wait for.
theorem Rests.done {c : Conn σ δ} (h : R.Rests [] c) : R.Mid c [] ∧ c.recv = [] := by
  rcases h with ⟨fs, h, hwait⟩ | ⟨r, fs, h, hnil⟩
  · have hbytes := h.bytes
    rw [List.append_nil] at hbytes
    cases fs with
    | nil => exact ⟨h.mid, hbytes⟩
    | cons f fs =>
        exfalso
        have hlen : f.bytes.length ≤ c.recv.length := by
          rw [hbytes, wire_cons, List.length_append]
          exact Nat.le_add_right _ _
        have hhead := f.head_length_le
        have hsize := f.bytes_length
        rcases hwait with hnil | hlook
        · rw [hnil, List.length_nil] at hlen
          omega
        · have hnext : c.recv ++ [] = f.bytes ++ wire fs := h.bytes
          rw [look_wire env hnext, if_neg (by omega), if_neg (by omega)] at hlook
          cases hlook
  · exfalso
    have hbytes := h.bytes
    rw [hnil, List.nil_append] at hbytes
    have hveil : c.veil r = [] := (List.append_eq_nil_iff.mp hbytes.symm).1
    have := c.veil_length r
    rw [hveil] at this
    exact h.more (List.eq_nil_of_length_eq_zero this.symm)

end

end Reader

end Sevent.Ws
