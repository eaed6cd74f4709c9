import Sevent.Ws.Gentle
import Sevent.Ws.Steps

-- The buffers of a connection without permessage-deflate, for any bytes that arrive and whatever
-- the callbacks do: what is left in recv_buf after a push leaves room for the next one.
namespace Sevent.Ws.Conn

open Sevent.Stream (WriteRes)

variable {σ δ : Type} {env : Env σ δ}

-- ---- what a step of the receiving side does to the connection ----

structure Onward (c c' : Conn σ δ) : Prop where
  state : c'.state = c.state ∨ c.state = .opened ∧ c'.state = .closing ∨ c'.state = .closed
  stream : c'.stream = .opening → c.stream = .opening
  -- one that its user has destroyed is CLOSED
  honest : (c.destroyed = true → c.state = .closed) → c'.destroyed = true → c'.state = .closed
  deflate : c.deflate = none → c'.deflate = none
  log : c.log <+: c'.log

theorem Onward.refl (c : Conn σ δ) : Onward c c := ⟨.inl rfl, id, id, id, List.prefix_rfl⟩

theorem Onward.closed {c c' : Conn σ δ} (h : Onward c c') (hc : c.state = .closed) :
    c'.state = .closed := by
  rcases h.state with hs | ⟨ho, -⟩ | hs
  · exact hs.trans hc
  · cases hc.symm.trans ho
  · exact hs

theorem Onward.trans {a b c : Conn σ δ} (h : Onward a b) (h' : Onward b c) : Onward a c := by
  refine ⟨?_, h.stream ∘ h'.stream, h'.honest ∘ h.honest, h'.deflate ∘ h.deflate, h.log.trans h'.log⟩
  rcases h'.state with hs | ⟨ho, hs⟩ | hs
  · rw [hs]
    exact h.state
  · rcases h.state with hb | ⟨-, hb⟩ | hb
    · exact .inr (.inl ⟨hb.symm.trans ho, hs⟩)
    · cases hb.symm.trans ho
    · cases hb.symm.trans ho
  · exact .inr (.inr hs)

-- Only the receiving side has changed.
theorem Onward.same {c c' : Conn σ δ} (hstate : c'.state = c.state) (hstream : c'.stream = c.stream)
    (hd : c'.destroyed = c.destroyed) (hdf : c'.deflate = c.deflate) (hlog : c'.log = c.log) :
    Onward c c' := by
  refine ⟨.inl hstate, ?_, ?_, ?_, hlog ▸ List.prefix_rfl⟩
  · rw [hstream]
    exact id
  · rw [hd, hstate]
    exact id
  · rw [hdf]
    exact id

theorem Onward.emit (c : Conn σ δ) (e : Event) : Onward c (c.emit e) :=
  ⟨.inl rfl, id, id, id, List.prefix_append _ _⟩

theorem Move.onward {c c' : Conn σ δ} (hm : Move env c c') : Onward c c' := by
  have hlog := hm.log_grows
  cases hm with
  | note e he => exact .emit c e
  | seed seed => exact .same rfl rfl rfl rfl rfl
  | compressor df d hd => exact ⟨.inl rfl, id, id, fun h => by simp [hd] at h, hlog⟩
  | frame opcode data res hs ho => exact ⟨.inl rfl, written_opening, id, id, hlog⟩
  | ended n hg =>
      rw [notifyNested_eq, shut_eq] at hlog ⊢
      exact ⟨.inr (.inr rfl), nofun, fun _ _ => rfl, id, hlog⟩
  | leave ho =>
      refine ⟨.inr (.inl ⟨ho, rfl⟩), id, fun h hd => ?_, id, hlog⟩
      cases ho.symm.trans (h hd)
  | close =>
      rw [close_eq] at hlog ⊢
      exact ⟨.inr (.inr rfl), nofun, fun _ _ => rfl, id, hlog⟩

theorem Moves.onward {c c' : Conn σ δ} (hm : Moves env c c') : Onward c c' := by
  induction hm with
  | refl => exact .refl _
  | tail _ hm ih => exact ih.trans hm.onward

theorem message_onward (site : Site) (data : Bytes) (isBin fin : Bool) (total : Nat)
    (c : Conn σ δ) : Onward c (message env site data isBin fin total c) := by
  unfold message
  cases hm : env.onMessage with
  | none => exact .emit c _
  | some cb =>
      exact ((Onward.emit c _).trans (Moves.onward (callback_moves env cb _ c))).trans (.emit _ _)

-- ---- uncompressed messages ----

-- A part of a message has been read from the frame.
structure Reads (c c' : Conn σ δ) : Prop extends Onward c c', SameFrame c c' where
  compressed : c.msg.compressed = false → c'.msg.compressed = false

theorem Reads.refl (c : Conn σ δ) : Reads c c := ⟨.refl c, .refl c, id⟩

theorem Reads.trans {a b c : Conn σ δ} (h : Reads a b) (h' : Reads b c) : Reads a c :=
  ⟨h.toOnward.trans h'.toOnward, h.toSameFrame.trans h'.toSameFrame, h'.compressed ∘ h.compressed⟩

theorem Reads.emit (c : Conn σ δ) (e : Event) : Reads c (c.emit e) :=
  ⟨.emit c e, .of_fields rfl, id⟩

-- The message state and frag_buf have changed.
theorem Reads.store {c c' : Conn σ δ}
    (h : (c'.state, c'.stream, c'.destroyed, c'.deflate, c'.log) =
      (c.state, c.stream, c.destroyed, c.deflate, c.log)) (hf : SameFrame c c')
    (hm : c.msg.compressed = false → c'.msg.compressed = false) : Reads c c' := by
  simp only [Prod.mk.injEq] at h
  obtain ⟨h₁, h₂, h₃, h₄, h₅⟩ := h
  exact ⟨.same h₁ h₂ h₃ h₄ h₅, hf, hm⟩

theorem Moves.reads {c c' : Conn σ δ} (hm : Moves env c c') : Reads c c' :=
  ⟨hm.onward, hm.sameRx.sameBuf.toSameFrame, fun h => by rwa [hm.sameRx.msg]⟩

theorem message_reads (site : Site) (data : Bytes) (isBin fin : Bool) (total : Nat)
    (c : Conn σ δ) : Reads c (message env site data isBin fin total c) :=
  have hrx := message_sameRx env site data isBin fin total c
  ⟨message_onward site data isBin fin total c, hrx.sameBuf.toSameFrame, fun h => by rwa [hrx.msg]⟩

theorem msgEnd_reads (isBin : Bool) {c : Conn σ δ} (hcomp : c.msg.compressed = false) :
    Reads c (msgEnd env isBin c) := by
  unfold msgEnd
  extract_lets _ _ c'
  have hc' : Reads c c' := by
    simp only [c', hcomp]
    split
    · exact .refl c
    · simp only [Bool.false_eq_true, if_false]
      split
      · have hmsg : Reads c (message env .msgEnd [] isBin true c.msg.total c) := message_reads ..
        exact hmsg.trans (.store rfl (.of_fields rfl) id)
      · exact .refl c
  exact hc'.trans (.store rfl (.of_fields rfl) fun _ => rfl)

variable (env) in
theorem fragAppend_reads (data : Bytes) {c : Conn σ δ} (hcomp : c.msg.compressed = false) :
    Reads c (fragAppend env data c).2 := by
  unfold fragAppend
  split
  · exact .refl c
  split
  · exact .refl c
  extract_lets c₁
  have h₁ : Reads c c₁ := by
    simp only [c₁, hcomp, Bool.false_eq_true, if_false]
    split
    · exact message_reads ..
    · exact .refl c
  by_cases hover : c.frag.length + data.length > env.recvCap
  · simp only [hover, if_true]
    by_cases hstop : env.onMessage.isSome = true ∧ c₁.frag ≠ [] ∧ c₁.destroyed = true
    · simp only [hstop, if_true, and_self, ne_eq, not_false_eq_true]
      exact h₁
    · simp only [if_neg hstop, Bool.false_eq_true, if_false]
      exact h₁.trans (.store rfl (.of_fields rfl) id)
  · simp only [if_neg hover, Bool.false_eq_true, if_false]
    exact .store rfl (.of_fields rfl) id

variable (env) in
theorem fragBlocks_reads (fin : Bool) (fuel : Nat) {c : Conn σ δ} (hcomp : c.msg.compressed = false) :
    Reads c (fragBlocks env fin fuel c).2 := by
  induction fuel generalizing c with
  | zero => exact .refl c
  | succ fuel ih =>
      unfold fragBlocks
      split
      · extract_lets last msg c₁ block c₂
        have h₁ : Reads c c₁ := by
          simp only [c₁]
          split
          · exact .store rfl (.of_fields rfl) id
          · exact .refl c
        have h₂ : Reads c c₂ := by
          have hcomp₁ := h₁.compressed hcomp
          simp only [c₂, hcomp₁, Bool.false_eq_true, if_false]
          exact h₁.trans (message_reads ..)
        split
        · exact h₂
        · have h₃ : Reads c { c₂ with frag := c₂.frag.drop env.recvCap } := h₂.trans (.store rfl (.of_fields rfl) id)
          exact h₃.trans (ih (h₃.compressed hcomp))
      · exact .refl c

theorem sendCloseCode_reads (code : Nat) {c : Conn σ δ} (he : Entered c.log) :
    Reads c (sendCloseCode env (notify env) code c) :=
  Moves.reads (sendCloseCode_moves (notify_moves env) code c he)

theorem fragRest_reads (isBin : Bool) {c : Conn σ δ} (hcomp : c.msg.compressed = false)
    (he : Entered c.log) : Reads c (fragRest env isBin c) := by
  unfold fragRest
  split
  · exact msgEnd_reads isBin hcomp
  rw [if_neg (by simp [hcomp])]
  split
  · exact sendCloseCode_reads 1007 he
  · extract_lets _ c₁ c₂
    have h₁ : Reads c c₁ := .store rfl (.of_fields rfl) id
    have h₂ : Reads c c₂ := h₁.trans (message_reads ..)
    split
    · exact h₂
    · have h₃ : Reads c { c₂ with frag := [] } := h₂.trans (.store rfl (.of_fields rfl) id)
      exact h₃.trans (msgEnd_reads isBin (h₃.compressed hcomp))

theorem fragFlush_reads (fin : Bool) {c : Conn σ δ} (hcomp : c.msg.compressed = false)
    (he : Entered c.log) : Reads c (fragFlush env fin c) := by
  have h₀ : Reads c (c.emit (.fragFlush c.msg.compressed fin c.frag.length)) := .emit c _
  have h₁ := h₀.trans (fragBlocks_reads env fin c.frag.length hcomp)
  unfold fragFlush
  dsimp only
  split
  · exact h₁
  · exact h₁.trans (fragRest_reads c.isBin (h₁.compressed hcomp) (he.mono h₁.log))

variable (env) in
theorem fragFlushTail_reads {c : Conn σ δ} (hcomp : c.msg.compressed = false) :
    Reads c (fragFlushTail env c) := by
  unfold fragFlushTail
  split
  · exact .refl c
  · extract_lets c'
    have hc' : Reads c c' := by
      simp only [c', hcomp, Bool.false_eq_true, if_false]
      split
      · exact message_reads ..
      · exact .refl c
    exact hc'.trans (.store rfl (.of_fields rfl) id)

-- ---- streamed frames ----

-- A part of a streamed frame has been read: the counters move together.
structure Streams (c c' : Conn σ δ) : Prop extends Onward c c' where
  fin : c'.streamFin = c.streamFin
  mode : c'.msg.mode = c.msg.mode
  compressed : c'.msg.compressed = false
  recv_le : c'.recv.length ≤ c.recv.length
  count : c'.streamRemaining + c.recv.length = c.streamRemaining + c'.recv.length

theorem Streams.refl {c : Conn σ δ} (hcomp : c.msg.compressed = false) : Streams c c :=
  ⟨.refl c, rfl, rfl, hcomp, le_rfl, rfl⟩

theorem Streams.trans {a b c : Conn σ δ} (h : Streams a b) (h' : Streams b c) : Streams a c :=
  ⟨h.toOnward.trans h'.toOnward, h'.fin.trans h.fin, h'.mode.trans h.mode, h'.compressed,
    h'.recv_le.trans h.recv_le, by have := h.count; have := h'.count; omega⟩

-- The chunks of what is buffered: to the end of the buffer or of the frame, or the callback has
-- destroyed.
theorem streamChunks_streams (hcap : 0 < env.recvCap) (fuel : Nat) {c : Conn σ δ}
    (hcomp : c.msg.compressed = false) (hfuel : c.recv.length ≤ fuel) :
    Streams c (streamChunks env fuel c).2 ∧
      ((streamChunks env fuel c).2.destroyed = true ∨ (streamChunks env fuel c).1 = true ∧
        ((streamChunks env fuel c).2.recv = [] ∨ (streamChunks env fuel c).2.streamRemaining = 0)) := by
  induction fuel generalizing c with
  | zero => exact ⟨.refl hcomp, .inr ⟨rfl, .inl (List.eq_nil_of_length_eq_zero (Nat.le_zero.mp hfuel))⟩⟩
  | succ fuel ih =>
      unfold streamChunks
      split
      · rename_i hstop
        exact ⟨.refl hcomp, .inr ⟨rfl, hstop⟩⟩
      rename_i hgo
      split
      · rename_i hd
        exact ⟨.refl hcomp, .inl hd⟩
      extract_lets chunk last data c₁ advance c₂ _ c₃
      have hpos : 0 < c.recv.length ∧ 0 < c.streamRemaining := by
        simp only [not_or, ← List.length_eq_zero_iff] at hgo
        omega
      have hchunk : 0 < chunk ∧ chunk ≤ c.recv.length ∧ chunk ≤ c.streamRemaining := by
        simp only [chunk]
        omega
      have hlen : c₁.recv.length = c.recv.length := by
        simp only [c₁, data, List.length_append, unmask_length, List.length_take, List.length_drop]
        omega
      rw [if_neg (show ¬ c₁.msg.compressed = true by simp [c₁, hcomp])]
      have h₁ : Onward c c₁ := .same rfl rfl rfl rfl rfl
      have h₂ : Reads c₁ c₂ ∧ c₂.msg = c₁.msg :=
        ⟨message_reads .., (message_sameRx env .streamConsume data c₁.isBin last _ c₁).msg⟩
      have hmode₂ : c₂.msg.mode = c₁.msg.mode := congrArg MsgState.mode h₂.2
      have h₃ : Reads c₁ c₃ ∧ c₃.msg.mode = c₁.msg.mode := by
        simp only [c₃]
        split
        · split
          · exact ⟨h₂.1.trans (.store rfl (.of_fields rfl) id), hmode₂⟩
          · exact ⟨h₂.1, hmode₂⟩
        · exact ⟨.refl c₁, rfl⟩
      obtain ⟨hreads, hmode⟩ := h₃
      have honward := h₁.trans hreads.toOnward
      split
      · rename_i hd
        exact ⟨⟨honward, hreads.fin, hmode, hreads.compressed hcomp, by rw [hreads.recv, hlen],
          by rw [hreads.recv, hlen, hreads.remaining]⟩, .inl hd⟩
      · have hadv : Streams c (advance c₃) := by
          refine ⟨honward.trans (.same rfl rfl rfl rfl rfl), hreads.fin, hmode, hreads.compressed hcomp,
            ?_, ?_⟩
          · simp only [advance, List.length_drop, hreads.recv, hlen]
            omega
          · have hrem : c₁.streamRemaining = c.streamRemaining := rfl
            simp only [advance, List.length_drop, hreads.recv, hlen, hreads.remaining, hrem]
            omega
        have hshort : (advance c₃).recv.length ≤ fuel := by
          simp only [advance, List.length_drop, hreads.recv, hlen]
          omega
        obtain ⟨hs, hend⟩ := ih hadv.compressed hshort
        exact ⟨hadv.trans hs, hend⟩

theorem streamConsume_streams (hcap : 0 < env.recvCap) {c : Conn σ δ}
    (hcomp : c.msg.compressed = false) :
    Onward c (streamConsume env c) ∧ (streamConsume env c).msg.compressed = false ∧
      (streamConsume env c).recv.length ≤ c.recv.length ∧
      (streamConsume env c).streamRemaining + c.recv.length =
        c.streamRemaining + (streamConsume env c).recv.length ∧
      ((streamConsume env c).destroyed = true ∨ (streamConsume env c).streamRemaining = 0 ∨
        (streamConsume env c).recv = [] ∧ (streamConsume env c).msg.mode = c.msg.mode) := by
  obtain ⟨hs, hend⟩ := streamChunks_streams hcap c.recv.length hcomp le_rfl
  unfold streamConsume
  dsimp only
  generalize streamChunks env c.recv.length c = r at *
  split
  · rename_i hstop
    refine ⟨hs.toOnward, hs.compressed, hs.recv_le, hs.count, .inl ?_⟩
    rcases hend with hd | ⟨hdone, -⟩
    · exact hd
    · simp [hdone] at hstop
  split
  · rename_i hlast
    have hreads : Reads r.2 (msgEnd env c.isBin r.2) := msgEnd_reads c.isBin hs.compressed
    refine ⟨hs.toOnward.trans hreads.toOnward, hreads.compressed hs.compressed, ?_, ?_, ?_⟩
    · rw [hreads.recv]
      exact hs.recv_le
    · rw [hreads.recv, hreads.remaining]
      exact hs.count
    · exact .inr (.inl (hreads.remaining.trans hlast.1))
  · refine ⟨hs.toOnward, hs.compressed, hs.recv_le, hs.count, ?_⟩
    rcases hend with hd | ⟨-, hnil | hzero⟩
    · exact .inl hd
    · exact .inr (.inr ⟨hnil, hs.mode⟩)
    · exact .inr (.inl hzero)

-- ---- frames ----

def Honest (c : Conn σ δ) : Prop := c.destroyed = true → c.state = .closed

theorem shut_over (n : Notice) (c : Conn σ δ) : (notify env n c.shut).state = .closed := by
  have hmoves : Onward (notifyNested env n c.shut) (notify env n c.shut) :=
    Moves.onward (notify_moves env n c.shut)
  refine hmoves.closed ?_
  rw [notifyNested_eq, shut_eq]

theorem Honest.gone {c : Conn σ δ} (h : Honest c) (hg : c.gone = true) : c.state = .closed := by
  simp only [Conn.gone, Bool.or_eq_true, beq_iff_eq] at hg
  exact hg.elim h id

theorem enterClosed_over (code : Nat) (reason : Bytes) {c : Conn σ δ} (h : Honest c) :
    (enterClosed (notify env) code reason c).state = .closed := by
  unfold enterClosed
  split
  · exact h.gone ‹_›
  · exact shut_over (.close code reason) c

theorem fatal_over (err : Int) {c : Conn σ δ} (h : Honest c) :
    (fatal env (notify env) err c).state = .closed := by
  unfold fatal
  split
  · exact h.gone ‹_›
  · exact shut_over (.error err) _

theorem sendCloseCode_over (code : Nat) {c : Conn σ δ} (h : Honest c) (he : Entered c.log) :
    (sendCloseCode env (notify env) code c).state = .closed :=
  enterClosed_over code [] ((Moves.onward (sendFrameRaw_moves (notify_moves env) Opcode.close
    (.bytes (beCode code)) false (c.emit (.closeCode code c.state))
    fun _ _ => he.mono (List.prefix_append _ _))).honest h)

-- A handler that returns: a negative code means that the connection is over.
structure Handles (c : Conn σ δ) (r : Int × Conn σ δ) : Prop extends Reads c r.2 where
  closes : r.1 < 0 → r.2.state = .closed

theorem Handles.of_reads {c c' : Conn σ δ} (h : Reads c c') {r : Int} (hr : 0 ≤ r) :
    Handles c (r, c') :=
  ⟨h, fun hneg => absurd hneg (Int.not_lt.mpr hr)⟩

-- -1 when the callback has destroyed.
theorem Handles.of_destroyed {c c' : Conn σ δ} (h : Reads c c') (hc : Honest c) :
    Handles c (if c'.destroyed then -1 else 0, c') := by
  refine ⟨h, fun hneg => h.honest hc ?_⟩
  by_contra hd
  dsimp only at hneg
  rw [if_neg hd] at hneg
  exact absurd hneg (by decide)

variable (env) in
theorem handleSingle_handles (hdr : FrameHeader) (payload : Bytes) {c : Conn σ δ} (h : Honest c)
    (he : Entered c.log) : Handles c (handleSingle env hdr payload c) := by
  unfold handleSingle
  split
  · exact ⟨sendCloseCode_reads 1007 he, fun _ => sendCloseCode_over 1007 h he⟩
  split
  · exact .of_destroyed (message_reads ..) h
  · exact .of_reads (.refl c) (Int.le_refl 0)

theorem handleTextBinary_handles (hdr : FrameHeader) (payload : Bytes) {c : Conn σ δ} (h : Honest c)
    (he : Entered c.log) (hcomp : c.msg.compressed = false) (hfit : payload.length ≤ env.recvCap) :
    Handles c (handleTextBinary env hdr payload c) := by
  unfold handleTextBinary
  split
  · exact .of_reads (.refl c) (by decide)
  extract_lets c₁ _ c₂
  have h₁ : Reads c c₁ := .emit c _
  split
  · have hs := handleSingle_handles env hdr payload (h₁.honest h) (he.mono h₁.log)
    exact ⟨h₁.trans hs.toReads, hs.closes⟩
  have h₂ : Reads c c₂ := h₁.trans (.store rfl (.of_fields rfl) id)
  have h₃ := h₂.trans (fragAppend_reads env payload (h₂.compressed hcomp))
  have hrc : (fragAppend env payload c₂).1 = 0 := fragAppend_rc env hfit
  generalize fragAppend env payload c₂ = r at h₃ hrc ⊢
  obtain ⟨rc, c₃⟩ := r
  dsimp only at h₃ hrc ⊢
  rw [if_neg (by simp [hrc])]
  exact .of_destroyed (h₃.trans (fragFlush_reads false (h₃.compressed hcomp) (he.mono h₃.log))) h

theorem handleCont_handles (hdr : FrameHeader) (payload : Bytes) {c : Conn σ δ} (h : Honest c)
    (he : Entered c.log) (hcomp : c.msg.compressed = false) (hfit : payload.length ≤ env.recvCap) :
    Handles c (handleCont env hdr payload c) := by
  unfold handleCont
  split
  · exact .of_reads (.refl c) (by decide)
  extract_lets c₁
  have h₁ : Reads c c₁ := .emit c _
  have h₂ := h₁.trans (fragAppend_reads env payload (h₁.compressed hcomp))
  have hrc : (fragAppend env payload c₁).1 = 0 := fragAppend_rc env hfit
  generalize fragAppend env payload c₁ = r at h₂ hrc ⊢
  obtain ⟨rc, c₂⟩ := r
  dsimp only at h₂ hrc ⊢
  rw [if_neg (by simp [hrc])]
  exact .of_destroyed (h₂.trans (fragFlush_reads hdr.fin (h₂.compressed hcomp) (he.mono h₂.log))) h

theorem handlePing_handles (payload : Bytes) {c : Conn σ δ} (he : Entered c.log) :
    Handles c (handlePing env payload c) := by
  have hreads : Reads c (sendFrame env (notify env) Opcode.pong (.bytes payload) c).2 :=
    Moves.reads (sendFrameRaw_moves (notify_moves env) _ _ _ c fun _ _ => he)
  unfold handlePing
  dsimp only
  split
  · exact .of_reads hreads (by decide)
  · exact .of_reads hreads (Int.le_refl 0)

theorem handlePong_handles (payload : Bytes) {c : Conn σ δ} (h : Honest c) :
    Handles c (handlePong env payload c) := by
  have hreads : Reads c (callback env env.onPong (.onPong payload) c) := by
    cases hcb : env.onPong with
    | none => exact .refl c
    | some cb => exact (Reads.emit c _).trans (Moves.reads (callback_moves env cb _ c))
  exact .of_destroyed hreads h

-- The peer's CLOSE ends the connection, if it is well formed.
variable (env) in
theorem handleClose_handles (payload : Bytes) {c : Conn σ δ} (h : Honest c) (he : Entered c.log) :
    Reads c (handleClose env payload c).2 ∧
      ((handleClose env payload c).1 = Err.wsProtocol ∨ (handleClose env payload c).1 = 0 ∧
        (handleClose env payload c).2.state = .closed) := by
  have hreply : Moves env c (sendFrame env (notify env) Opcode.close (.bytes payload) c).2 :=
    sendFrameRaw_moves (notify_moves env) _ _ _ c fun _ _ => he
  have haccept : ∀ code reason, Reads c (acceptClose env payload code reason c) ∧
      (acceptClose env payload code reason c).state = .closed := by
    intro code reason
    unfold acceptClose
    split
    · exact ⟨Moves.reads (enterClosed_moves (notify_moves env) code reason c),
        enterClosed_over code reason h⟩
    · exact ⟨(Moves.reads hreply).trans (Moves.reads (enterClosed_moves (notify_moves env) code reason _)),
        enterClosed_over code reason ((Moves.onward hreply).honest h)⟩
  unfold handleClose
  split
  · dsimp only
    split
    · exact ⟨.refl c, .inl rfl⟩
    split
    · exact ⟨sendCloseCode_reads 1007 he, .inr ⟨rfl, sendCloseCode_over 1007 h he⟩⟩
    · exact ⟨(haccept _ _).1, .inr ⟨rfl, (haccept _ _).2⟩⟩
  · exact ⟨(haccept _ _).1, .inr ⟨rfl, (haccept _ _).2⟩⟩

-- A frame that was in the buffer as a whole: the rest of the buffer is shorter, or the connection
-- is over or will be given up.
structure FrameEnds (c : Conn σ δ) (r : Next × Conn σ δ) : Prop extends Onward c r.2 where
  compressed : r.2.msg.compressed = false
  remaining : r.2.streamRemaining = c.streamRemaining
  recv_le : r.2.recv.length ≤ c.recv.length
  next : r.1 = .goOn ∧ r.2.recv.length < c.recv.length ∨
    ∃ k, r.1 = .ret k ∧ (k ≤ 0 → r.2.state = .closed)

theorem FrameEnds.refused {c : Conn σ δ} (hcomp : c.msg.compressed = false) {k : Int} (hk : 0 < k) :
    FrameEnds c (.ret k, c) :=
  ⟨.refl c, hcomp, rfl, le_rfl, .inr ⟨k, rfl, fun hle => absurd hk (Int.not_lt.mpr hle)⟩⟩

theorem dispatch_handles (hdr : FrameHeader) (payload : Bytes) {c : Conn σ δ} (h : Honest c)
    (he : Entered c.log) (hcomp : c.msg.compressed = false) (hfit : payload.length ≤ env.recvCap)
    {r : Int × Conn σ δ} (hr : dispatch env hdr payload c = some r) : Handles c r := by
  unfold dispatch at hr
  split_ifs at hr <;> cases hr
  · exact handleTextBinary_handles hdr payload h he hcomp hfit
  · exact handleCont_handles hdr payload h he hcomp hfit
  · exact handlePing_handles payload he
  · exact handlePong_handles payload h

theorem plainFrame_ends (hdr : FrameHeader) (size : Nat) (payload : Bytes) {c : Conn σ δ}
    (h : Honest c) (he : Entered c.log) (hcomp : c.msg.compressed = false)
    (hfit : payload.length ≤ env.recvCap) (hsize : 0 < size) (hrecv : c.recv ≠ []) :
    FrameEnds c (plainFrame env hdr size payload c) := by
  unfold plainFrame
  split
  · exact .refused hcomp (by decide)
  split
  · exact .refused hcomp (by decide)
  split
  · obtain ⟨hreads, hend⟩ := handleClose_handles env payload h he
    generalize handleClose env payload c = r at hreads hend ⊢
    obtain ⟨rc, c₁⟩ := r
    refine ⟨hreads.toOnward, hreads.compressed hcomp, hreads.remaining,
      (congrArg List.length hreads.recv).le, .inr ⟨rc, rfl, fun hle => ?_⟩⟩
    rcases hend with hrc | ⟨-, hc⟩
    · dsimp only at hrc
      simp [hrc, Err.wsProtocol] at hle
    · exact hc
  · cases hr : dispatch env hdr payload c with
    | none => exact .refused hcomp (by decide)
    | some r =>
        have hh := dispatch_handles hdr payload h he hcomp hfit hr
        obtain ⟨rc, c₁⟩ := r
        have hon := hh.toOnward
        have hcomp₁ := hh.compressed hcomp
        have hrem := hh.remaining
        have hle : c₁.recv.length ≤ c.recv.length := (congrArg List.length hh.recv).le
        dsimp only at hon hcomp₁ hrem ⊢
        split
        · exact ⟨hon, hcomp₁, hrem, hle, .inr ⟨_, rfl, fun _ => hh.closes ‹_›⟩⟩
        split
        · exact ⟨hon, hcomp₁, hrem, hle, .inr ⟨_, rfl, fun hle => by omega⟩⟩
        · have hlt : (consumeFrame hdr size c₁).recv.length < c.recv.length := by
            have hpos := List.length_pos_iff.mpr hrecv
            rw [consumeFrame, List.length_drop, hh.recv]
            omega
          exact ⟨hon.trans (.same rfl rfl rfl rfl rfl), hcomp₁, hrem, hlt.le, .inl ⟨rfl, hlt⟩⟩

theorem wholeFrame_ends (hdr : FrameHeader) (size : Nat) {c : Conn σ δ} (h : Honest c)
    (he : Entered c.log) (hdf : c.deflate = none) (hcomp : c.msg.compressed = false)
    (hlen : size + hdr.payloadLen ≤ c.recv.length) (hfit : c.recv.length ≤ env.recvCap)
    (hsize : 0 < size) : FrameEnds c (wholeFrame env hdr size c) := by
  have hpayload : (framePayload hdr size c).length = hdr.payloadLen := by
    rw [framePayload_length, List.length_take, List.length_drop]
    omega
  have hrecv : (unmaskFrame hdr size c).recv.length = c.recv.length := by
    simp only [unmaskFrame, List.length_append, hpayload, List.length_take, List.length_drop]
    omega
  unfold wholeFrame
  dsimp only
  split
  · exact .refused hcomp (by decide)
  have h₁ : Onward c (unmaskFrame hdr size c) := .same rfl rfl rfl rfl rfl
  have hcomp₁ : (unmaskFrame hdr size c).msg.compressed = false := hcomp
  have hdf₁ : (unmaskFrame hdr size c).deflate = none := hdf
  have hrem₁ : (unmaskFrame hdr size c).streamRemaining = c.streamRemaining := rfl
  generalize unmaskFrame hdr size c = c₁ at *
  have hback : ∀ r, FrameEnds c₁ r → FrameEnds c r := by
    intro r hr
    have hnext := hr.next
    have hle := hr.recv_le
    rw [hrecv] at hnext hle
    exact ⟨h₁.trans hr.toOnward, hr.compressed, hr.remaining.trans hrem₁, hle, hnext⟩
  split
  · exact hback _ (.refused hcomp₁ (by decide))
  split
  · exact hback _ (.refused hcomp₁ (by decide))
  split
  · exact hback _ (.refused hcomp₁ (by decide))
  rename_i hrsv
  have hplain : hdr.rsv1 = false := by simpa [hdf₁] using hrsv
  have hnote : noteCompressed hdr c₁ = c₁ := if_neg fun hc => by simp [hplain] at hc
  rw [if_neg (by simp [hplain]), if_neg (by simp [hplain]), hnote]
  have hne : c₁.recv ≠ [] := by
    rw [← List.length_pos_iff]
    omega
  exact hback _ (plainFrame_ends hdr size _ (h₁.honest h) (he.mono h₁.log) hcomp₁ (by omega) hsize hne)

variable (env) in
theorem joinStream_onward (hdr : FrameHeader) {c : Conn σ δ} (hcomp : c.msg.compressed = false)
    (hrsv : hdr.rsv1 = false) : Reads c (joinStream env hdr c).2 ∧
      ((joinStream env hdr c).1 = true ∧ (joinStream env hdr c).2.destroyed = true ∨
        (joinStream env hdr c).1 = false ∧ (joinStream env hdr c).2.msg.mode = .stream) := by
  unfold joinStream
  split
  · have htail := fragFlushTail_reads env hcomp
    dsimp only
    split
    · exact ⟨htail, .inl ⟨rfl, ‹_›⟩⟩
    · exact ⟨htail.trans (.store rfl (.of_fields rfl) id), .inr ⟨rfl, rfl⟩⟩
  · exact ⟨.refl c, .inr ⟨rfl, ‹_›⟩⟩
  · exact ⟨.store rfl (.of_fields rfl) fun _ => by simp [hcomp, hrsv], .inr ⟨rfl, rfl⟩⟩

-- What is left in the buffer when the connection waits for more.
structure Bounded (env : Env σ δ) (c : Conn σ δ) : Prop where
  recv_lt : c.recv.length < env.recvCap / 2
  streaming : 0 < c.streamRemaining → c.msg.mode = .stream ∧ c.recv = []

theorem beginStream_bounded (hcap : 1024 ≤ env.recvCap) (hdr : FrameHeader) (size : Nat)
    {c : Conn σ δ} (h : Honest c) (hdf : c.deflate = none) (hcomp : c.msg.compressed = false)
    (hsize : size ≤ c.recv.length) (hpart : c.recv.length < size + hdr.payloadLen) :
    Onward c (beginStream env hdr size c).2 ∧ (beginStream env hdr size c).2.msg.compressed = false ∧
      (beginStream env hdr size c).2.recv.length ≤ c.recv.length ∧
      ((∃ err, (beginStream env hdr size c).1 = some err ∧ 0 < err) ∨
        (beginStream env hdr size c).1 = none ∧
          ((beginStream env hdr size c).2.state = .closed ∨ Bounded env (beginStream env hdr size c).2)) := by
  have hrefused : Onward c c ∧ c.msg.compressed = false ∧ c.recv.length ≤ c.recv.length ∧
      ((∃ err, some Err.wsProtocol = some err ∧ 0 < err) ∨
        some Err.wsProtocol = none ∧ (c.state = .closed ∨ Bounded env c)) :=
    ⟨.refl c, hcomp, le_rfl, .inl ⟨_, rfl, by decide⟩⟩
  unfold beginStream
  split
  · exact hrefused
  split
  · exact hrefused
  rename_i hrsv
  have hplain : hdr.rsv1 = false := by simpa [hdf] using hrsv
  split
  · exact hrefused
  split
  · exact hrefused
  split
  · exact hrefused
  split
  · exact hrefused
  have hpos : 0 < env.recvCap := by omega
  extract_lets c₀
  have h₀ : Reads c (c₀.emit (.streamFrame c₀.msg.mode c₀.frag.length)) :=
    (Reads.emit c _).trans (.emit _ _)
  obtain ⟨hjoin, hmode⟩ := joinStream_onward env hdr (h₀.compressed hcomp) hplain
  have h₁ := h₀.trans hjoin
  generalize joinStream env hdr (c₀.emit (.streamFrame c₀.msg.mode c₀.frag.length)) = r at h₁ hmode ⊢
  obtain ⟨stop, c₁⟩ := r
  dsimp only at h₁ hmode ⊢
  rcases hmode with ⟨rfl, hd⟩ | ⟨rfl, hmode⟩
  · exact ⟨h₁.toOnward, h₁.compressed hcomp, (congrArg List.length h₁.recv).le,
      .inr ⟨rfl, .inl (h₁.honest h hd)⟩⟩
  · rw [if_neg (by simp)]
    have harm : Onward c (armStream hdr size c₁) := h₁.toOnward.trans (.same rfl rfl rfl rfl rfl)
    have hcomp₂ : (armStream hdr size c₁).msg.compressed = false := h₁.compressed hcomp
    have hrecv : (armStream hdr size c₁).recv.length = c.recv.length - size := by
      rw [armStream, List.length_drop, h₁.recv]
    have hrem : (armStream hdr size c₁).streamRemaining = hdr.payloadLen := rfl
    obtain ⟨hon, hcomp₃, hle, hcount, hend⟩ := streamConsume_streams hpos hcomp₂
    refine ⟨harm.trans hon, hcomp₃, by omega, .inr ⟨rfl, ?_⟩⟩
    rcases hend with hd | hzero | ⟨hnil, hmode₃⟩
    · exact .inl ((harm.trans hon).honest h hd)
    · omega
    · refine .inr ⟨?_, fun _ => ⟨hmode₃.trans hmode, hnil⟩⟩
      rw [hnil, List.length_nil]
      omega

-- ---- the frame loop ----

-- A loop that returns: it waits for more, or the connection is over or will be given up.
structure LoopEnds (env : Env σ δ) (c : Conn σ δ) (r : Int × Conn σ δ) : Prop extends Onward c r.2 where
  compressed : r.2.msg.compressed = false
  recv_le : r.2.recv.length ≤ c.recv.length
  next : 0 < r.1 ∨ r.2.state = .closed ∨ r.1 = 0 ∧ Bounded env r.2

theorem LoopEnds.after {c c₁ : Conn σ δ} {r : Int × Conn σ δ} (h : Onward c c₁)
    (hle : c₁.recv.length ≤ c.recv.length) (h' : LoopEnds env c₁ r) : LoopEnds env c r :=
  ⟨h.trans h'.toOnward, h'.compressed, h'.recv_le.trans hle, h'.next⟩

theorem LoopEnds.short {c : Conn σ δ} (hcomp : c.msg.compressed = false) (hb : Bounded env c) :
    LoopEnds env c (0, c) :=
  ⟨.refl c, hcomp, le_rfl, .inr (.inr ⟨rfl, hb⟩)⟩

theorem LoopEnds.over {c : Conn σ δ} (hcomp : c.msg.compressed = false) (hc : c.state = .closed) :
    LoopEnds env c (0, c) :=
  ⟨.refl c, hcomp, le_rfl, .inr (.inl hc)⟩

theorem Bounded.of_empty (hcap : 1024 ≤ env.recvCap) {c : Conn σ δ} (hnil : c.recv = [])
    (hmode : 0 < c.streamRemaining → c.msg.mode = .stream) : Bounded env c := by
  refine ⟨?_, fun hpos => ⟨hmode hpos, hnil⟩⟩
  rw [hnil, List.length_nil]
  omega

theorem processFrames_ends (hcap : 1024 ≤ env.recvCap) (fuel : Nat) {c : Conn σ δ} (h : Honest c)
    (he : Entered c.log) (hdf : c.deflate = none) (hcomp : c.msg.compressed = false)
    (hrem : c.streamRemaining = 0) (hfit : c.recv.length ≤ env.recvCap)
    (hfuel : c.recv.length ≤ fuel) : LoopEnds env c (processFrames env fuel c) := by
  have hnone : ∀ {c : Conn σ δ}, c.streamRemaining = 0 → 0 < c.streamRemaining →
      c.msg.mode = .stream ∧ c.recv = [] := fun h0 hpos => by omega
  induction fuel generalizing c with
  | zero => exact .short hcomp ⟨by omega, hnone hrem⟩
  | succ fuel ih =>
      unfold processFrames
      split
      · rename_i hstop
        rcases hstop with hnil | hc
        · exact .short hcomp (.of_empty hcap hnil fun hpos => by omega)
        · exact .over hcomp hc
      split
      · exact .over hcomp (h ‹_›)
      split
      · rename_i hlook
        have := look_more env hlook
        exact .short hcomp ⟨by omega, hnone hrem⟩
      · exact ⟨.refl c, hcomp, le_rfl, .inl (show 0 < Err.wsProtocol by decide)⟩
      · rename_i hdr size hlook
        obtain ⟨-, hsize, hpart⟩ := look_large env hlook
        obtain ⟨hon, hcomp₁, hle, hend⟩ := beginStream_bounded hcap hdr size h hdf hcomp hsize hpart
        split
        · rename_i err c₁ heq
          rw [heq] at hon hcomp₁ hle hend
          rcases hend with ⟨e, hsome, hpos⟩ | ⟨hnone, -⟩
          · cases hsome
            exact ⟨hon, hcomp₁, hle, .inl hpos⟩
          · cases hnone
        · rename_i c₁ heq
          rw [heq] at hon hcomp₁ hle hend
          rcases hend with ⟨e, hsome, -⟩ | ⟨-, hclosed | hb⟩
          · cases hsome
          · exact ⟨hon, hcomp₁, hle, .inr (.inl hclosed)⟩
          · exact ⟨hon, hcomp₁, hle, .inr (.inr ⟨rfl, hb⟩)⟩
      · rename_i hdr size hlook
        obtain ⟨hpos, hlen, -⟩ := look_whole env hlook
        have hframe := wholeFrame_ends hdr size h he hdf hcomp hlen hfit (by omega)
        split
        · rename_i c₁ heq
          rw [heq] at hframe
          have hon : Onward c c₁ := hframe.toOnward
          have hrem₁ : c₁.streamRemaining = 0 := hframe.remaining.trans hrem
          have hle : c₁.recv.length ≤ c.recv.length := hframe.recv_le
          rcases hframe.next with ⟨-, hlt⟩ | ⟨k, hk, -⟩
          · dsimp only at hlt
            exact .after hon hle (ih (hon.honest h) (he.mono hon.log) (hon.deflate hdf)
              hframe.compressed hrem₁ (hle.trans hfit) (by omega))
          · cases hk
        · rename_i k c₁ heq
          rw [heq] at hframe
          rcases hframe.next with ⟨hgo, -⟩ | ⟨k', hk, hover⟩
          · cases hgo
          · cases hk
            refine ⟨hframe.toOnward, hframe.compressed, hframe.recv_le, ?_⟩
            by_cases hpos : 0 < k
            · exact .inl hpos
            · exact .inr (.inl (hover (Int.not_lt.mp hpos)))

-- The loop of ws_frame_data. It has turned once, or it will.
theorem streamLoop_ends (hcap : 1024 ≤ env.recvCap) (fuel : Nat) {c : Conn σ δ} (h : Honest c)
    (he : Entered c.log) (hdf : c.deflate = none) (hcomp : c.msg.compressed = false)
    (hfit : c.recv.length ≤ env.recvCap)
    (hstay : c.state = .closed ∨ Bounded env c ∨
      0 < fuel ∧ (0 < c.streamRemaining → c.msg.mode = .stream)) :
    LoopEnds env c (streamLoop env fuel c) := by
  have hmode : c.state = .closed ∨ (0 < c.streamRemaining → c.msg.mode = .stream) := by
    rcases hstay with hc | hb | ⟨-, hm⟩
    · exact .inl hc
    · exact .inr fun hpos => (hb.streaming hpos).1
    · exact .inr hm
  induction fuel generalizing c with
  | zero =>
      rcases hstay with hc | hb | ⟨hpos, -⟩
      · exact .over hcomp hc
      · exact .short hcomp hb
      · omega
  | succ fuel ih =>
      unfold streamLoop
      split
      · rename_i hnil
        rcases hmode with hc | hm
        · exact .over hcomp hc
        · exact .short hcomp (.of_empty hcap hnil hm)
      extract_lets prev c₁
      have h₁ : Onward c c₁ ∧ c₁.msg.compressed = false ∧ c₁.recv.length ≤ c.recv.length ∧
          (c₁.state = .closed ∨ c₁.streamRemaining = 0 ∨ c₁.recv = [] ∧ c₁.msg.mode = .stream) := by
        simp only [c₁]
        split
        · rename_i hpos
          have hcap₀ : 0 < env.recvCap := by omega
          obtain ⟨hon, hcomp₁, hle, -, hend⟩ := streamConsume_streams hcap₀ hcomp
          refine ⟨hon, hcomp₁, hle, ?_⟩
          rcases hend with hd | hz | ⟨hnil, hsame⟩
          · exact .inl (hon.honest h hd)
          · exact .inr (.inl hz)
          · exact hmode.imp hon.closed fun hm => .inr ⟨hnil, hsame.trans (hm hpos)⟩
        · exact ⟨.refl c, hcomp, le_rfl, .inr (.inl (by omega))⟩
      obtain ⟨hon, hcomp₁, hle, hend⟩ := h₁
      have h₂ : LoopEnds env c (if c₁.streamRemaining = 0 then runFrames env c₁ else (0, c₁)) := by
        split
        · exact .after hon hle (processFrames_ends hcap _ (hon.honest h) (he.mono hon.log)
            (hon.deflate hdf) hcomp₁ ‹_› (hle.trans hfit) le_rfl)
        · rename_i hne
          refine .after hon hle ?_
          rcases hend with hc | hz | ⟨hnil, hm⟩
          · exact .over hcomp₁ hc
          · exact absurd hz hne
          · exact .short hcomp₁ (.of_empty hcap hnil fun _ => hm)
      generalize (if c₁.streamRemaining = 0 then runFrames env c₁ else (0, c₁)) = r at h₂
      obtain ⟨err, c₂⟩ := r
      dsimp only
      split
      · exact h₂
      split
      · exact h₂
      · have hon₂ : Onward c c₂ := h₂.toOnward
        have hle₂ : c₂.recv.length ≤ c.recv.length := h₂.recv_le
        have hnext : c₂.state = .closed ∨ Bounded env c₂ := by
          rcases h₂.next with hpos | hc | ⟨-, hb⟩
          · dsimp only at hpos
            omega
          · exact .inl hc
          · exact .inr hb
        refine .after hon₂ hle₂ (ih (hon₂.honest h) (he.mono hon₂.log) (hon₂.deflate hdf)
          h₂.compressed (hle₂.trans hfit) ?_ ?_)
        · exact hnext.imp_right .inl
        · exact hnext.imp_right fun hb hpos => (hb.streaming hpos).1

theorem frameData_bounded (hcap : 1024 ≤ env.recvCap) {c : Conn σ δ} (h : Honest c)
    (hdf : c.deflate = none) (hcomp : c.msg.compressed = false)
    (hfit : c.recv.length ≤ env.recvCap) (hopened : c.state = .opened → Opened c.log)
    (hstream : 0 < c.streamRemaining → c.msg.mode = .stream) :
    Onward c (frameData env c) ∧ (frameData env c).msg.compressed = false ∧
      ((frameData env c).state = .closed ∨ Bounded env (frameData env c)) := by
  have he : Entered (c.emit .frameData).log := by
    by_cases ho : Opened c.log
    · exact .inl (ho.mono (List.prefix_append _ _))
    · exact .inr ⟨c.log, .frameData, List.prefix_rfl, rfl, ho⟩
  unfold frameData
  extract_lets c₀
  have h₀ : Onward c c₀ := .emit c _
  have hloop : LoopEnds env c₀ (if c₀.msg.mode = .stream then
      streamLoop env (c₀.recv.length + 1) c₀ else runFrames env c₀) := by
    split
    · exact streamLoop_ends hcap _ (h₀.honest h) he hdf hcomp hfit
        (.inr (.inr ⟨Nat.succ_pos _, hstream⟩))
    · rename_i hmode
      refine processFrames_ends hcap _ (h₀.honest h) he hdf hcomp ?_ hfit le_rfl
      by_contra hrem
      exact hmode (hstream (Nat.pos_of_ne_zero hrem))
  generalize (if c₀.msg.mode = .stream then streamLoop env (c₀.recv.length + 1) c₀
    else runFrames env c₀) = r at hloop
  obtain ⟨err, c₁⟩ := r
  have hon : Onward c c₁ := h₀.trans hloop.toOnward
  dsimp only
  split
  · have hlog : err = Err.wsProtocol → c₁.state = .opened → Opened c₁.log := by
      intro _ ho
      rcases hon.state with hs | ⟨-, hs⟩ | hs
      · exact (hopened (hs.symm.trans ho)).mono hon.log
      · cases hs.symm.trans ho
      · cases hs.symm.trans ho
    have hfatal : Reads c₁ (fatal env (notify env) err c₁) :=
      Moves.reads (fatal_moves (notify_moves env) err c₁ hlog)
    exact ⟨hon.trans hfatal.toOnward, hfatal.compressed hloop.compressed,
      .inl (fatal_over err (hon.honest h))⟩
  · refine ⟨hon, hloop.compressed, ?_⟩
    rcases hloop.next with hpos | hc | ⟨-, hb⟩
    · dsimp only at hpos
      omega
    · exact .inl hc
    · exact .inr hb

end Sevent.Ws.Conn
