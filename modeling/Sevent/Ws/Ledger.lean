import Sevent.Ws.Pump
import Sevent.Ws.Sink

-- The fin callback of a message and its total, for any bytes that arrive. A ledger is kept over the
-- log: the data frames that have been taken up, against the calls of on_message.
namespace Sevent.Ws

variable {σ δ : Type}

open Conn

-- Between two messages, inside one with so many bytes, behind its last frame, or in a compressed
-- message, whose callbacks are not checked.
inductive Ledger where
  | idle
  | inside (sum : Nat)
  | last (sum : Nat)
  | zipped
  | bad
  deriving DecidableEq, Repr

namespace Ledger

def frame (opcode len : Nat) (fin compressed : Bool) : Ledger → Ledger
  | .idle | .zipped =>
      if compressed then .zipped
      else if opcode = Opcode.cont then .bad
      else if fin then .last len else .inside len
  | .inside sum =>
      if compressed ∨ opcode ≠ Opcode.cont then .bad
      else if fin then .last (sum + len) else .inside (sum + len)
  | _ => .bad

def message (fin : Bool) (total : Nat) : Ledger → Ledger
  | .inside sum => if !fin ∧ total = 0 then .inside sum else .bad
  | .last sum =>
      if fin then if total = wrap64 sum then .idle else .bad
      else if total = 0 then .last sum else .bad
  | .zipped => .zipped
  | _ => .bad

def note : Ledger → Event → Ledger
  | l, .dataFrame opcode len fin compressed => l.frame opcode len fin compressed
  | l, .onMessage _ _ _ fin total => l.message fin total
  | l, _ => l

theorem note_spoken {l : Ledger} {e : Event} (he : e.spoken = false) : l.note e = l := by
  cases e with
  | onMessage site data isBin fin total => cases he
  | dataFrame opcode len fin compressed => cases he
  | _ => rfl

theorem foldl_silent {events : List Event} (h : ∀ e ∈ events, e.spoken = false) (l : Ledger) :
    events.foldl note l = l := by
  induction events with
  | nil => rfl
  | cons e rest ih =>
      rw [List.foldl_cons, note_spoken (h e (List.mem_cons_self ..))]
      exact ih fun e he => h e (List.mem_cons_of_mem _ he)

end Ledger

def ledger (log : List Event) : Ledger := log.foldl Ledger.note .idle

namespace Conn

-- The ledger since the log had `n` events.
def book (n : Nat) (c : Conn σ δ) : Ledger := ledger (c.log.drop n)

theorem book_emit {n : Nat} {c : Conn σ δ} (hn : n ≤ c.log.length) (e : Event) :
    (c.emit e).book n = (c.book n).note e := by
  rw [book, book, ledger, emit, List.drop_append_of_le_length hn, List.foldl_append]
  rfl

theorem book_silent {n : Nat} {c c' : Conn σ δ} (hn : n ≤ c.log.length) (h : Silent c c') :
    c'.book n = c.book n := by
  obtain ⟨events, hlog, hs⟩ := h
  rw [book, book, ledger, hlog, List.drop_append_of_le_length hn, List.foldl_append,
    Ledger.foldl_silent hs]
  rfl

variable {env : Env σ δ}

theorem book_message (hg : env.Gentle) (hm : env.onMessage.isSome = true) {n : Nat}
    {c : Conn σ δ} (hd : c.destroyed = false) (hn : n ≤ c.log.length) (site : Site) (data : Bytes)
    (isBin fin : Bool) (total : Nat) :
    (message env site data isBin fin total c).book n = (c.book n).message fin total := by
  have hemit : n ≤ (c.emit (.onMessage site data isBin fin total)).log.length := by
    simp only [emit, List.length_append]
    omega
  rw [book_silent hemit (message_aside hg hm site data isBin fin total hd).silent, book_emit hn]
  rfl

-- ---- where a connection stands ----

-- The ledger has never been wrong.
structure Sane (n : Nat) (c : Conn σ δ) : Prop where
  alive : c.destroyed = false
  le : n ≤ c.log.length
  book : c.book n ≠ .bad

-- Between two frames or inside a streamed one.
structure Balanced (env : Env σ δ) (n : Nat) (c : Conn σ δ) : Prop where
  alive : c.destroyed = false
  le : n ≤ c.log.length
  frag_le : c.frag.length ≤ env.recvCap
  streaming : 0 < c.streamRemaining → c.msg.mode = .stream
  none : c.msg.mode = .none →
    (c.book n = .idle ∨ c.book n = .zipped) ∧ c.msg.total = 0 ∧ c.msg.finSent = false ∧
      c.msg.compressed = false ∧ c.frag = []
  plain : c.msg.mode ≠ .none → c.msg.compressed = false → c.msg.finSent = false ∧
    ∃ sum, c.msg.total = wrap64 sum ∧
      c.book n = if 0 < c.streamRemaining ∧ c.streamFin then .last sum else .inside sum
  zipped : c.msg.mode ≠ .none → c.msg.compressed = true → c.book n = .zipped

-- Inside an uncompressed message: `t` bytes are counted in the message state and `s` in the ledger.
structure Counting (env : Env σ δ) (n : Nat) (c : Conn σ δ) (t s : Nat) (last : Bool) : Prop where
  alive : c.destroyed = false
  le : n ≤ c.log.length
  frag_le : c.frag.length ≤ env.recvCap
  mode : c.msg.mode ≠ .none
  compressed : c.msg.compressed = false
  finSent : c.msg.finSent = false
  total : c.msg.total = wrap64 t
  book : c.book n = if last then .last s else .inside s

-- Behind a message.
structure Paid (n : Nat) (c : Conn σ δ) : Prop where
  alive : c.destroyed = false
  le : n ≤ c.log.length
  msg : c.msg.mode = .none ∧ c.msg.total = 0 ∧ c.msg.finSent = false ∧ c.msg.compressed = false
  frag : c.frag = []
  book : c.book n = .idle ∨ c.book n = .zipped

-- In a compressed message.
structure Zipped (env : Env σ δ) (n : Nat) (c : Conn σ δ) : Prop where
  alive : c.destroyed = false
  le : n ≤ c.log.length
  frag_le : c.frag.length ≤ env.recvCap
  book : c.book n = .zipped

theorem Counting.sane {n : Nat} {c : Conn σ δ} {t s : Nat} {last : Bool}
    (h : Counting env n c t s last) : Sane n c := by
  refine ⟨h.alive, h.le, ?_⟩
  rw [h.book]
  cases last <;> simp

theorem Balanced.sane {n : Nat} {c : Conn σ δ} (h : Balanced env n c) : Sane n c := by
  refine ⟨h.alive, h.le, ?_⟩
  by_cases hmode : c.msg.mode = .none
  · rcases (h.none hmode).1 with hb | hb <;> simp [hb]
  · cases hc : c.msg.compressed with
    | true => simp [h.zipped hmode hc]
    | false =>
        obtain ⟨-, sum, -, hb⟩ := h.plain hmode hc
        rw [hb]
        split <;> simp

theorem Paid.balanced {n : Nat} {c : Conn σ δ} (h : Paid n c) (hr : c.streamRemaining = 0) :
    Balanced env n c :=
  ⟨h.alive, h.le, by simp [h.frag], fun hpos => by omega,
    fun _ => ⟨h.book, h.msg.2.1, h.msg.2.2.1, h.msg.2.2.2, h.frag⟩,
    fun hmode => absurd h.msg.1 hmode, fun hmode => absurd h.msg.1 hmode⟩

theorem Sane.silent {n : Nat} {c c' : Conn σ δ} (h : Sane n c) (ha : Aside c c') : Sane n c' :=
  ⟨ha.destroyed, h.le.trans ha.log.length_le, by rw [book_silent h.le ha.silent]; exact h.book⟩

theorem Balanced.aside {n : Nat} {c c' : Conn σ δ} (h : Balanced env n c) (ha : Aside c c') :
    Balanced env n c' := by
  have hb := book_silent h.le ha.silent
  have hrx := ha.rx
  refine ⟨ha.destroyed, h.le.trans ha.log.length_le, ?_, ?_, ?_, ?_, ?_⟩
  · rw [hrx.frag]
    exact h.frag_le
  · rw [hrx.remaining, hrx.msg]
    exact h.streaming
  · rw [hrx.msg, hrx.frag, hb]
    exact h.none
  · rw [hrx.msg, hrx.remaining, hrx.fin, hb]
    exact h.plain
  · rw [hrx.msg, hb]
    exact h.zipped

-- ---- uncompressed messages ----

section

variable (hg : env.Gentle) (hm : env.onMessage.isSome = true)

include hg hm

-- A part of the message that is not its end.
theorem Counting.part {n : Nat} {c : Conn σ δ} {t s : Nat} {last : Bool}
    (h : Counting env n c t s last) (site : Site) (data : Bytes) (isBin : Bool) :
    Counting env n (message env site data isBin false 0 c) t s last := by
  have hsame := message_sameBuf hg hm site data isBin false 0 h.alive
  have hcalm := message_calm hg site data isBin false 0 h.alive
  refine ⟨hcalm.destroyed, h.le.trans hcalm.log.length_le, ?_, ?_, ?_, ?_, ?_, ?_⟩
  · rw [hsame.frag]
    exact h.frag_le
  · rw [hsame.msg]
    exact h.mode
  · rw [hsame.msg]
    exact h.compressed
  · rw [hsame.msg]
    exact h.finSent
  · rw [hsame.msg]
    exact h.total
  · rw [book_message hg hm h.alive h.le, h.book]
    cases last <;> simp [Ledger.message]

-- The callback that ends it.
theorem Counting.finish {n : Nat} {c : Conn σ δ} {s : Nat} (h : Counting env n c s s true)
    (site : Site) (data : Bytes) (isBin : Bool) :
    (message env site data isBin true c.msg.total c).book n = .idle := by
  rw [book_message hg hm h.alive h.le, h.book, h.total]
  simp [Ledger.message]

omit hg hm in
-- fin has been sent, and msg_end clears the message state.
theorem msgEnd_paid {n : Nat} {c : Conn σ δ} (isBin : Bool) (hd : c.destroyed = false)
    (hle : n ≤ c.log.length) (hcomp : c.msg.compressed = false) (hsent : c.msg.finSent = true)
    (hb : c.book n = .idle) : Paid n (msgEnd env isBin c) ∧ SameFrame c (msgEnd env isBin c) := by
  have e : msgEnd env isBin c =
      { c with
        msg := { c.msg with mode := .none, compressed := false, total := 0, finSent := false }
        frag := [] } := by
    unfold msgEnd
    simp [hcomp, hsent]
  rw [e]
  exact ⟨⟨hd, hle, ⟨rfl, rfl, rfl, rfl⟩, rfl, .inl hb⟩, .of_fields rfl⟩

-- The last bytes go out with fin.
theorem Counting.sent {n : Nat} {c c' : Conn σ δ} {s : Nat} (h : Counting env n c s s true)
    (site : Site) (data : Bytes) (isBin : Bool)
    (hc' : c' = message env site data isBin true c.msg.total
      { c with msg := { c.msg with finSent := true } }) :
    c'.destroyed = false ∧ c'.frag = c.frag ∧ SameFrame c c' ∧
      ∀ b, Paid n (msgEnd env isBin { c' with frag := b }) ∧
        SameFrame c (msgEnd env isBin { c' with frag := b }) := by
  have hd : { c with msg := { c.msg with finSent := true } }.destroyed = false := h.alive
  have hsame := message_sameBuf hg hm site data isBin true c.msg.total hd
  have hcalm := message_calm hg site data isBin true c.msg.total hd
  have hb := book_message hg hm hd h.le site data isBin true c.msg.total
  have hbook : Conn.book n { c with msg := { c.msg with finSent := true } } = .last s := h.book
  rw [hbook, h.total] at hb
  simp only [Ledger.message, if_true] at hb
  rw [← h.total, ← hc'] at hb
  rw [← hc'] at hsame hcalm
  have hframe : SameFrame c c' := (SameFrame.of_msg c _).trans hsame.toSameFrame
  refine ⟨hcalm.destroyed, hsame.frag, hframe, fun b => ?_⟩
  obtain ⟨hpaid, hend⟩ := msgEnd_paid (c := { c' with frag := b }) isBin hcalm.destroyed
    (h.le.trans hcalm.log.length_le) ((congrArg MsgState.compressed hsame.msg).trans h.compressed)
    (congrArg MsgState.finSent hsame.msg) hb
  exact ⟨hpaid, hframe.trans ((SameFrame.of_frag c' b).trans hend)⟩

omit hg hm in
theorem Zipped.emit {n : Nat} {c : Conn σ δ} (h : Zipped env n c) (e : Event)
    (he : e.spoken = false) : Zipped env n (c.emit e) := by
  refine ⟨h.alive, ?_, h.frag_le, ?_⟩
  · simp only [Conn.emit, List.length_append]
    have := h.le
    omega
  · rw [book_emit h.le, Ledger.note_spoken he]
    exact h.book

theorem Zipped.message {n : Nat} {c : Conn σ δ} (h : Zipped env n c) (site : Site) (data : Bytes)
    (isBin fin : Bool) (total : Nat) : Zipped env n (message env site data isBin fin total c) := by
  have hsame := message_sameBuf hg hm site data isBin fin total h.alive
  have hcalm := message_calm hg site data isBin fin total h.alive
  refine ⟨hcalm.destroyed, h.le.trans hcalm.log.length_le, ?_, ?_⟩
  · rw [hsame.frag]
    exact h.frag_le
  · rw [book_message hg hm h.alive h.le, h.book]
    rfl

end

end Conn

end Sevent.Ws
