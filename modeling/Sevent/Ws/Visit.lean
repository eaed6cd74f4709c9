import Sevent.Ws.Session

-- What the operations of a connection keep is kept by every frame that it reads, however the loops
-- of the receiving side nest.
namespace Sevent.Ws

variable {σ δ : Type}

-- What the receiving side notes down.
def Event.traced : Event → Bool
  | .alloc _ => true
  | .frameData => true
  | .dataFrame _ _ _ _ => true
  | .streamFrame _ _ => true
  | .fragFlush _ _ _ => true
  | _ => false

-- What ws_deflate_create has settled for both contexts: which is reset, and the windows.
def Deflate.terms (df : Deflate σ δ) : Bool × Bool × Nat × Nat :=
  (df.serverNoContextTakeover, df.clientNoContextTakeover, df.serverWindowBits, df.clientWindowBits)

namespace Conn

def terms (c : Conn σ δ) : Option (Bool × Bool × Nat × Nat) := c.deflate.map Deflate.terms

variable {env : Env σ δ} {P : Conn σ δ → Prop}

structure Upholds (env : Env σ δ) (P : Conn σ δ → Prop) : Prop where
  -- buffers, message state and inflate context
  store {c c' : Conn σ δ} (hc : P c)
    (h : (c'.state, c'.destroyed, c'.stream, c'.pingTimer, c'.log) =
      (c.state, c.destroyed, c.stream, c.pingTimer, c.log)) : P c'
  note {c : Conn σ δ} {e : Event} (he : e.traced = true) : P c → P (c.emit e)
  message (site : Site) (data : Bytes) (isBin fin : Bool) (total : Nat) {c : Conn σ δ} :
    P c → P (message env site data isBin fin total c)
  pong (payload : Bytes) {c : Conn σ δ} : P c → P (callback env env.onPong (.onPong payload) c)
  sendPong (payload : Bytes) {c : Conn σ δ} :
    P c → P (sendFrame env (notify env) Opcode.pong (.bytes payload) c).2
  closeCode (code : Nat) {c : Conn σ δ} : P c → P (sendCloseCode env (notify env) code c)
  acceptClose (payload : Bytes) (code : Nat) (reason : Bytes) {c : Conn σ δ} :
    P c → P (acceptClose env payload code reason c)
  fatal (err : Int) {c : Conn σ δ} : P c → P (fatal env (notify env) err c)

-- The same for a property that also knows on what terms the contexts were made.
structure Carries (env : Env σ δ) (P : Conn σ δ → Prop) : Prop where
  store {c c' : Conn σ δ} (hc : P c)
    (h : (c'.state, c'.destroyed, c'.stream, c'.pingTimer, c'.log, c'.terms) =
      (c.state, c.destroyed, c.stream, c.pingTimer, c.log, c.terms)) : P c'
  note {c : Conn σ δ} {e : Event} (he : e.traced = true) : P c → P (c.emit e)
  message (site : Site) (data : Bytes) (isBin fin : Bool) (total : Nat) {c : Conn σ δ} :
    P c → P (message env site data isBin fin total c)
  pong (payload : Bytes) {c : Conn σ δ} : P c → P (callback env env.onPong (.onPong payload) c)
  sendPong (payload : Bytes) {c : Conn σ δ} :
    P c → P (sendFrame env (notify env) Opcode.pong (.bytes payload) c).2
  closeCode (code : Nat) {c : Conn σ δ} : P c → P (sendCloseCode env (notify env) code c)
  acceptClose (payload : Bytes) (code : Nat) (reason : Bytes) {c : Conn σ δ} :
    P c → P (acceptClose env payload code reason c)
  fatal (err : Int) {c : Conn σ δ} : P c → P (fatal env (notify env) err c)

theorem setInflate_terms (c : Conn σ δ) (s : σ) : (c.setInflate s).terms = c.terms := by
  unfold setInflate terms
  cases c.deflate <;> rfl

theorem inflateRest_terms (env : Env σ δ) (c : Conn σ δ) : (c.inflateRest env).terms = c.terms := by
  unfold inflateRest terms
  cases c.deflate with
  | none => rfl
  | some df => cases hreset : df.serverNoContextTakeover <;> simp [Deflate.terms, hreset]

variable (hk : Carries env P)

include hk

-- ---- inflate ----

theorem Carries.setInflate (s : σ) {c : Conn σ δ} (h : P c) : P (c.setInflate s) := by
  refine hk.store h ?_
  rw [setInflate_terms]
  rfl

theorem Carries.inflateLoop (l : InflateLoop) (isBin : Bool) (fuel : Nat) (s : σ) (input : Bytes)
    {c : Conn σ δ} (h : P c) : P (inflateLoop env l isBin fuel s input c).2.2 := by
  induction fuel generalizing s input c with
  | zero => exact hk.setInflate _ h
  | succ fuel ih =>
      unfold Conn.inflateLoop
      extract_lets r rest c₁ c₂
      by_cases h1 : r.res = .bufError ∧ rest ≠ []
      · rw [if_pos h1]
        exact hk.setInflate _ h
      rw [if_neg h1]
      by_cases h2 : r.res = .error ∨ (r.res = .streamEnd ∧ !l.acceptEnd)
      · rw [if_pos h2]
        exact hk.setInflate _ h
      rw [if_neg h2]
      have h₁ : P c₁ := hk.setInflate _ h
      have h₂ : P c₂ := by
        simp only [c₂]
        split
        · exact hk.message _ _ _ _ _ h₁
        · exact h₁
      split
      · exact h₂
      · split
        · exact h₂
        · exact ih r.state rest h₂

theorem Carries.decompressStreamChunk (data : Bytes) (isBin : Bool) {c : Conn σ δ} (h : P c) :
    P (decompressStreamChunk env data isBin c).2 := by
  unfold Conn.decompressStreamChunk
  split
  · exact h
  cases c.deflate with
  | none => exact h
  | some df =>
      have ha : P (c.alloc env).2 := hk.note rfl h
      dsimp only
      split
      · exact ha
      · exact hk.inflateLoop _ isBin _ _ _ ha

theorem Carries.inflateRest {c : Conn σ δ} (h : P c) : P (c.inflateRest env) := by
  refine hk.store h ?_
  rw [inflateRest_terms]
  rfl

theorem Carries.decompressStreamEnd (isBin : Bool) {c : Conn σ δ} (h : P c) :
    P (decompressStreamEnd env isBin c).2 := by
  unfold Conn.decompressStreamEnd
  split
  · exact h
  cases c.deflate with
  | none => exact h
  | some df =>
      have ha : P (c.alloc env).2 := hk.note rfl h
      dsimp only
      split
      · exact ha
      have hl := hk.inflateLoop ⟨.inflateEnd, .syncFlush, true, true⟩ isBin
        (inflateFuel env.zlib df.inflate deflateTail) df.inflate deflateTail ha
      split
      · exact hl
      generalize (Conn.inflateLoop env _ _ _ _ _ _).2.2 = c' at hl ⊢
      refine hk.inflateRest ?_
      split
      · have hset : P { c' with msg := { c'.msg with finSent := true } } := hk.store hl rfl
        exact hk.message _ _ _ _ _ hset
      · exact hl

theorem Carries.decompressOneshot (data : Bytes) (isBin : Bool) {c : Conn σ δ} (h : P c) :
    P (decompressOneshot env data isBin c).2 := by
  unfold Conn.decompressOneshot
  split
  · exact h
  cases c.deflate with
  | none => exact h
  | some df =>
      have ha : P (c.alloc env).2 := hk.note rfl h
      dsimp only
      split
      · exact ha
      have ha' : P ((c.alloc env).2.alloc env).2 := hk.note rfl ha
      split
      · exact ha'
      have hl := hk.inflateLoop ⟨.inflateOneshot, .syncFlush, true, true⟩ isBin
        (inflateFuel env.zlib df.inflate (availIn (data ++ deflateTail))) df.inflate
        (availIn (data ++ deflateTail)) ha'
      split
      · exact hl
      · exact hk.inflateRest (hk.message _ _ _ _ _ hl)

-- ---- messages in pieces ----

theorem Carries.msgEnd (isBin : Bool) {c : Conn σ δ} (h : P c) : P (msgEnd env isBin c) := by
  unfold Conn.msgEnd
  extract_lets _ _ c'
  have hc' : P c' := by
    simp only [c']
    split
    · exact h
    split
    · exact hk.decompressStreamEnd isBin h
    split
    · exact hk.store (hk.message _ _ _ _ _ h) rfl
    · exact h
  exact hk.store hc' rfl

theorem Carries.streamChunks (fuel : Nat) {c : Conn σ δ} (h : P c) :
    P (streamChunks env fuel c).2 := by
  induction fuel generalizing c with
  | zero => exact h
  | succ fuel ih =>
      unfold Conn.streamChunks
      split
      · exact h
      split
      · exact h
      extract_lets chunk last data c₁ advance c₂ _ c₃
      have h₁ : P c₁ := hk.store h rfl
      split
      · have hchunk := hk.decompressStreamChunk data c₁.isBin h₁
        dsimp only
        split
        · exact hchunk
        · exact ih (hk.store hchunk rfl)
      · have h₂ : P c₂ := hk.message _ _ _ _ _ h₁
        have h₃ : P c₃ := by
          simp only [c₃]
          split
          · split
            · exact hk.store h₂ rfl
            · exact h₂
          · exact h₁
        split
        · exact h₃
        · exact ih (hk.store h₃ rfl)

theorem Carries.streamConsume {c : Conn σ δ} (h : P c) : P (streamConsume env c) := by
  have hc := hk.streamChunks c.recv.length h
  unfold Conn.streamConsume
  dsimp only
  split
  · exact hc
  split
  · exact hk.msgEnd _ hc
  · exact hc

theorem Carries.fragAppend (data : Bytes) {c : Conn σ δ} (h : P c) : P (fragAppend env data c).2 := by
  unfold Conn.fragAppend
  split
  · exact h
  split
  · exact h
  extract_lets c₁
  have h₁ : P c₁ := by
    simp only [c₁]
    split
    · split
      · exact hk.decompressStreamChunk _ _ h
      · exact hk.message _ _ _ _ _ h
    · exact h
  by_cases hover : c.frag.length + data.length > env.recvCap
  · simp only [hover, if_true]
    by_cases hstop : env.onMessage.isSome = true ∧ c₁.frag ≠ [] ∧ c₁.destroyed = true
    · simp only [hstop, if_true, and_self, ne_eq, not_false_eq_true]
      exact h₁
    · simp only [if_neg hstop, Bool.false_eq_true, if_false]
      exact hk.store h₁ rfl
  · simp only [if_neg hover, Bool.false_eq_true, if_false]
    exact hk.store h rfl

theorem Carries.fragBlocks (fin : Bool) (fuel : Nat) {c : Conn σ δ} (h : P c) :
    P (fragBlocks env fin fuel c).2 := by
  induction fuel generalizing c with
  | zero => exact h
  | succ fuel ih =>
      unfold Conn.fragBlocks
      split
      · extract_lets last msg c₁ block c₂
        have h₁ : P c₁ := by
          simp only [c₁]
          split
          · exact hk.store h rfl
          · exact h
        have h₂ : P c₂ := by
          simp only [c₂]
          split
          · exact hk.decompressStreamChunk _ _ h₁
          · exact hk.message _ _ _ _ _ h₁
        split
        · exact h₂
        · exact ih (hk.store h₂ rfl)
      · exact h

theorem Carries.fragRest (isBin : Bool) {c : Conn σ δ} (h : P c) : P (fragRest env isBin c) := by
  unfold Conn.fragRest
  split
  · exact hk.msgEnd isBin h
  split
  · have hchunk := hk.decompressStreamChunk c.frag isBin h
    dsimp only
    split
    · exact hchunk
    · exact hk.msgEnd isBin (hk.store hchunk rfl)
  split
  · exact hk.closeCode 1007 h
  · extract_lets _ c₁ c₂
    have h₂ : P c₂ := hk.message _ _ _ _ _ (hk.store h rfl)
    split
    · exact h₂
    · exact hk.msgEnd isBin (hk.store h₂ rfl)

theorem Carries.fragFlush (fin : Bool) {c : Conn σ δ} (h : P c) : P (fragFlush env fin c) := by
  have hb := hk.fragBlocks fin c.frag.length
    (hk.note (e := .fragFlush c.msg.compressed fin c.frag.length) rfl h)
  unfold Conn.fragFlush
  dsimp only
  split
  · exact hb
  · exact hk.fragRest _ hb

theorem Carries.fragFlushTail {c : Conn σ δ} (h : P c) : P (fragFlushTail env c) := by
  unfold Conn.fragFlushTail
  split
  · exact h
  · extract_lets c'
    have hc' : P c' := by
      simp only [c']
      split
      · exact hk.decompressStreamChunk _ _ h
      split
      · exact hk.message _ _ _ _ _ h
      · exact h
    exact hk.store hc' rfl

-- ---- frames ----

theorem Carries.handleSingle (hdr : FrameHeader) (payload : Bytes) {c : Conn σ δ} (h : P c) :
    P (handleSingle env hdr payload c).2 := by
  unfold Conn.handleSingle
  split
  · exact hk.closeCode 1007 h
  split
  · exact hk.message _ _ _ _ _ h
  · exact h

theorem Carries.handleTextBinary (hdr : FrameHeader) (payload : Bytes) {c : Conn σ δ} (h : P c) :
    P (handleTextBinary env hdr payload c).2 := by
  unfold Conn.handleTextBinary
  split
  · exact h
  extract_lets c₁ _ c₂
  have h₁ : P c₁ := hk.note rfl h
  split
  · exact hk.handleSingle hdr payload h₁
  have h₂ : P c₂ := hk.store h₁ rfl
  have h₃ := hk.fragAppend payload h₂
  dsimp only
  split
  · exact h₃
  · exact hk.fragFlush false h₃

theorem Carries.handleCont (hdr : FrameHeader) (payload : Bytes) {c : Conn σ δ} (h : P c) :
    P (handleCont env hdr payload c).2 := by
  unfold Conn.handleCont
  split
  · exact h
  extract_lets c₁
  have h₁ : P c₁ := hk.note rfl h
  have h₂ := hk.fragAppend payload h₁
  dsimp only
  split
  · exact h₂
  · exact hk.fragFlush hdr.fin h₂

theorem Carries.handleClose (payload : Bytes) {c : Conn σ δ} (h : P c) :
    P (handleClose env payload c).2 := by
  unfold Conn.handleClose
  split
  · dsimp only
    split
    · exact h
    split
    · exact hk.closeCode 1007 h
    · exact hk.acceptClose _ _ _ h
  · exact hk.acceptClose _ _ _ h

theorem Carries.dispatch (hdr : FrameHeader) (payload : Bytes) {c : Conn σ δ} (h : P c)
    {r : Int × Conn σ δ} (hr : dispatch env hdr payload c = some r) : P r.2 := by
  unfold Conn.dispatch at hr
  split_ifs at hr <;> cases hr
  · exact hk.handleTextBinary hdr payload h
  · exact hk.handleCont hdr payload h
  · exact hk.sendPong payload h
  · exact hk.pong payload h

theorem Carries.oneshotFrame (hdr : FrameHeader) (size : Nat) (payload : Bytes) {c : Conn σ δ}
    (h : P c) : P (oneshotFrame env hdr size payload c).2 := by
  unfold Conn.oneshotFrame
  split
  · exact h
  have hone := hk.decompressOneshot payload (hdr.opcode == Opcode.binary)
    (hk.note (e := .dataFrame hdr.opcode hdr.payloadLen hdr.fin true) rfl h)
  dsimp only
  split
  · exact hone
  split
  · exact hone
  · exact hk.store hone rfl

theorem Carries.plainFrame (hdr : FrameHeader) (size : Nat) (payload : Bytes) {c : Conn σ δ}
    (h : P c) : P (plainFrame env hdr size payload c).2 := by
  unfold Conn.plainFrame
  split
  · exact h
  split
  · exact h
  split
  · exact hk.handleClose payload h
  cases hd : Conn.dispatch env hdr payload c with
  | none => exact h
  | some r =>
      have hr := hk.dispatch hdr payload h hd
      dsimp only
      split
      · exact hr
      split
      · exact hr
      · exact hk.store hr rfl

theorem Carries.noteCompressed (hdr : FrameHeader) {c : Conn σ δ} (h : P c) :
    P (noteCompressed hdr c) := by
  unfold Conn.noteCompressed
  split
  · exact hk.store h rfl
  · exact h

theorem Carries.wholeFrame (hdr : FrameHeader) (size : Nat) {c : Conn σ δ} (h : P c) :
    P (wholeFrame env hdr size c).2 := by
  unfold Conn.wholeFrame
  extract_lets payload c₁
  have h₁ : P c₁ := hk.store h rfl
  split_ifs
  · exact h
  · exact h₁
  · exact h₁
  · exact h₁
  · exact h₁
  · exact hk.oneshotFrame hdr size payload h₁
  · exact hk.plainFrame hdr size payload (hk.noteCompressed hdr h₁)

theorem Carries.joinStream (hdr : FrameHeader) {c : Conn σ δ} (h : P c) :
    P (joinStream env hdr c).2 := by
  unfold Conn.joinStream
  split
  · have ht := hk.fragFlushTail h
    dsimp only
    split
    · exact ht
    · exact hk.store ht rfl
  · exact h
  · exact hk.store h rfl

theorem Carries.beginStream (hdr : FrameHeader) (size : Nat) {c : Conn σ δ} (h : P c) :
    P (beginStream env hdr size c).2 := by
  unfold Conn.beginStream
  split_ifs
  · exact h
  · exact h
  · exact h
  · exact h
  · exact h
  · exact h
  · extract_lets c₁
    have h₁ : P c₁ := hk.note rfl h
    have hj := hk.joinStream hdr (hk.note (e := .streamFrame c₁.msg.mode c₁.frag.length) rfl h₁)
    dsimp only
    split
    · exact hj
    · exact hk.streamConsume (hk.store hj rfl)

theorem Carries.processFrames (fuel : Nat) {c : Conn σ δ} (h : P c) :
    P (processFrames env fuel c).2 := by
  induction fuel generalizing c with
  | zero => exact h
  | succ fuel ih =>
      unfold Conn.processFrames
      split
      · exact h
      split
      · exact h
      split
      · exact h
      · exact h
      · rename_i hdr size hlook
        have hb := hk.beginStream hdr size h
        split <;> rename_i heq <;> rw [heq] at hb <;> exact hb
      · rename_i hdr size hlook
        have hw := hk.wholeFrame hdr size h
        split <;> rename_i heq <;> rw [heq] at hw
        · exact ih hw
        · exact hw

theorem Carries.runFrames {c : Conn σ δ} (h : P c) : P (runFrames env c).2 :=
  hk.processFrames _ h

theorem Carries.streamLoop (fuel : Nat) {c : Conn σ δ} (h : P c) : P (streamLoop env fuel c).2 := by
  induction fuel generalizing c with
  | zero => exact h
  | succ fuel ih =>
      unfold Conn.streamLoop
      split
      · exact h
      extract_lets prev c₁
      have h₁ : P c₁ := by
        simp only [c₁]
        split
        · exact hk.streamConsume h
        · exact h
      have h₂ : P (if c₁.streamRemaining = 0 then Conn.runFrames env c₁ else (0, c₁)).2 := by
        split
        · exact hk.runFrames h₁
        · exact h₁
      generalize (if c₁.streamRemaining = 0 then Conn.runFrames env c₁ else (0, c₁)) = r at h₂ ⊢
      dsimp only
      split
      · exact h₂
      split
      · exact h₂
      · exact ih h₂

theorem Carries.frameData {c : Conn σ δ} (h : P c) : P (frameData env c) := by
  unfold Conn.frameData
  extract_lets c₁
  have h₁ : P c₁ := hk.note rfl h
  have h₂ : P (if c₁.msg.mode = .stream then Conn.streamLoop env (c₁.recv.length + 1) c₁
      else Conn.runFrames env c₁).2 := by
    split
    · exact hk.streamLoop _ h₁
    · exact hk.runFrames h₁
  generalize (if c₁.msg.mode = .stream then Conn.streamLoop env (c₁.recv.length + 1) c₁
    else Conn.runFrames env c₁) = r at h₂ ⊢
  dsimp only
  split
  · exact hk.fatal _ h₂
  · exact h₂

omit hk

-- ---- what does not ask for the terms either ----

theorem Upholds.carries (hk : Upholds env P) : Carries env P where
  store hc h := by
    simp only [Prod.mk.injEq] at h
    obtain ⟨h₁, h₂, h₃, h₄, h₅, -⟩ := h
    exact hk.store hc (by rw [h₁, h₂, h₃, h₄, h₅])
  note := hk.note
  message := hk.message
  pong := hk.pong
  sendPong := hk.sendPong
  closeCode := hk.closeCode
  acceptClose := hk.acceptClose
  fatal := hk.fatal

theorem Upholds.runFrames (hk : Upholds env P) {c : Conn σ δ} (h : P c) : P (runFrames env c).2 :=
  hk.carries.runFrames h

theorem Upholds.frameData (hk : Upholds env P) {c : Conn σ δ} (h : P c) : P (frameData env c) :=
  hk.carries.frameData h

end Conn

end Sevent.Ws
