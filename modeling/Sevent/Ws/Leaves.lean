import Sevent.Ws.Gentle
import Sevent.Ws.Work

-- What every function of the receiving side leaves alone, whatever the callbacks do: the bytes of
-- recv_buf and the cursor of the streamed frame.
namespace Sevent.Ws.Conn

open Sevent.Stream (WriteRes)

variable {σ δ : Type} {env : Env σ δ}

structure Leaves (c c' : Conn σ δ) : Prop extends SameFrame c c' where
  destroyed : c.destroyed = true → c'.destroyed = true
  opening : c'.stream = .opening → c.stream = .opening
  handshake : c'.state = .handshake → c.state = .handshake

theorem Leaves.refl (c : Conn σ δ) : Leaves c c := ⟨.refl c, id, id, id⟩

theorem Leaves.trans {a b c : Conn σ δ} (h : Leaves a b) (h' : Leaves b c) : Leaves a c :=
  ⟨h.toSameFrame.trans h'.toSameFrame, h'.destroyed ∘ h.destroyed, h.opening ∘ h'.opening,
    h.handshake ∘ h'.handshake⟩

-- Nothing that the relation looks at has changed.
theorem Leaves.of_fields {c c' : Conn σ δ} (hf : SameFrame c c')
    (h : (c'.state, c'.stream, c'.destroyed) = (c.state, c.stream, c.destroyed)) : Leaves c c' := by
  simp only [Prod.mk.injEq] at h
  obtain ⟨hstate, hstream, hd⟩ := h
  exact ⟨hf, fun h => hd ▸ h, fun h => hstream ▸ h, fun h => hstate ▸ h⟩

theorem Leaves.emit (c : Conn σ δ) (e : Event) : Leaves c (c.emit e) := .of_fields (.of_fields rfl) rfl

theorem Leaves.msg (c : Conn σ δ) (m : MsgState) : Leaves c { c with msg := m } :=
  .of_fields (.of_msg c m) rfl

theorem Leaves.frag (c : Conn σ δ) (b : Bytes) : Leaves c { c with frag := b } :=
  .of_fields (.of_frag c b) rfl

-- The message state is as it was, too.
structure Beside (c c' : Conn σ δ) : Prop extends Leaves c c' where
  msg : c'.msg = c.msg

theorem Beside.refl (c : Conn σ δ) : Beside c c := ⟨.refl c, rfl⟩

theorem Beside.trans {a b c : Conn σ δ} (h : Beside a b) (h' : Beside b c) : Beside a c :=
  ⟨h.toLeaves.trans h'.toLeaves, h'.msg.trans h.msg⟩

theorem Beside.of_fields {c c' : Conn σ δ} (hf : SameFrame c c')
    (h : (c'.state, c'.stream, c'.destroyed, c'.msg) = (c.state, c.stream, c.destroyed, c.msg)) :
    Beside c c' := by
  simp only [Prod.mk.injEq] at h
  obtain ⟨hstate, hstream, hd, hmsg⟩ := h
  exact ⟨.of_fields hf (by rw [hstate, hstream, hd]), hmsg⟩

theorem Beside.emit (c : Conn σ δ) (e : Event) : Beside c (c.emit e) := .of_fields (.of_fields rfl) rfl

theorem shut_beside (c : Conn σ δ) : Beside c c.shut := by
  rw [shut_eq]
  exact ⟨⟨.of_fields rfl, id, nofun, nofun⟩, rfl⟩

theorem Move.leaves {c c' : Conn σ δ} (hm : Move env c c') : Leaves c c' := by
  cases hm with
  | note e he => exact .emit c e
  | seed seed => exact .of_fields (.of_fields rfl) rfl
  | compressor df d hd => exact .of_fields (.of_fields rfl) rfl
  | frame opcode data res hs ho => exact ⟨.of_fields rfl, id, written_opening, id⟩
  | ended n hg =>
      rw [notifyNested_eq]
      exact (shut_beside c).toLeaves.trans (.of_fields (.of_fields rfl) rfl)
  | leave ho => exact ⟨.of_fields rfl, id, id, nofun⟩
  | close =>
      rw [close_eq]
      exact ⟨.of_fields rfl, fun _ => rfl, nofun, nofun⟩

theorem Moves.beside {c c' : Conn σ δ} (hm : Moves env c c') : Beside c c' := by
  refine ⟨?_, hm.sameRx.msg⟩
  induction hm with
  | refl => exact .refl _
  | tail _ hm ih => exact ih.trans hm.leaves

variable (env) in
theorem callback_beside (cb : Callback) (e : Event) (c : Conn σ δ) : Beside c (callback env cb e c) := by
  cases cb with
  | none => exact .refl c
  | some cb => exact (Beside.emit c e).trans (Moves.beside (callback_moves env cb e c))

variable (env) in
theorem notify_beside (n : Notice) (c : Conn σ δ) : Beside c (notify env n c) := by
  have hnested : Beside c (notifyNested env n c) := by
    rw [notifyNested_eq]
    exact .of_fields (.of_fields rfl) rfl
  exact hnested.trans (Moves.beside (notify_moves env n c))

-- ---- frames that are sent, and the end of a connection ----

theorem written_beside (e : Event) (res : WriteRes) (c : Conn σ δ) : Beside c (c.written e res) :=
  ⟨⟨.of_fields rfl, id, written_opening, id⟩, rfl⟩

theorem streamWrite_beside (ev : WriteRes → Event) (c : Conn σ δ) :
    Beside c (streamWrite env (notify env) ev c).2 := by
  by_cases hs : c.stream = .opened
  · rw [streamWrite_eq env _ ev c hs]
    exact (written_beside _ _ c).trans (Moves.beside (settle_moves (notify_moves env) _ _))
  · rw [streamWrite, if_pos hs]
    exact .refl c

theorem sendFrame_beside (opcode : Nat) (payload : Arg) (c : Conn σ δ) :
    Beside c (sendFrame env (notify env) opcode payload c).2 := by
  rw [sendFrame]
  rcases sendFrameRaw_cases env (notify env) opcode payload false c with
    ⟨seed, events, -, h⟩ | ⟨seed, data, res, -, -, h⟩
  · rw [h]
    exact .of_fields (.of_fields rfl) rfl
  · rw [h]
    have hseed : Beside c { c with maskSeed := seed, log := c.log ++ [.alloc true] } :=
      .of_fields (.of_fields rfl) rfl
    exact (hseed.trans (written_beside _ res _)).trans
      (Moves.beside (settle_moves (notify_moves env) res _))

theorem enterClosed_beside (code : Nat) (reason : Bytes) (c : Conn σ δ) :
    Beside c (enterClosed (notify env) code reason c) :=
  Moves.beside (enterClosed_moves (notify_moves env) code reason c)

theorem sendCloseCode_beside (code : Nat) (c : Conn σ δ) :
    Beside c (sendCloseCode env (notify env) code c) :=
  ((Beside.emit c _).trans (sendFrame_beside _ _ _)).trans (enterClosed_beside code [] _)

theorem fatal_beside (err : Int) (c : Conn σ δ) : Beside c (fatal env (notify env) err c) := by
  unfold fatal
  split
  · exact .refl c
  · extract_lets c'
    have hc' : Beside c c' := by
      simp only [c']
      split
      · have hclosing : Beside c (c.setState .closing) := ⟨⟨.of_fields rfl, id, id, nofun⟩, rfl⟩
        exact hclosing.trans (sendFrame_beside _ _ _)
      · exact .refl c
    exact hc'.trans ((shut_beside c').trans (notify_beside env (.error err) c'.shut))

-- ---- messages ----

variable (env)

theorem message_beside (site : Site) (data : Bytes) (isBin fin : Bool) (total : Nat) (c : Conn σ δ) :
    Beside c (message env site data isBin fin total c) := by
  unfold message
  cases hm : env.onMessage with
  | none => exact .emit c _
  | some cb =>
      exact ((Beside.emit c _).trans (Moves.beside (callback_moves env cb _ c))).trans (.emit _ _)

theorem setInflate_beside (c : Conn σ δ) (s : σ) : Beside c (c.setInflate s) :=
  .of_fields (.of_fields rfl) rfl

theorem inflateLoop_beside (l : InflateLoop) (isBin : Bool) (fuel : Nat) (s : σ) (input : Bytes)
    (c : Conn σ δ) : Beside c (inflateLoop env l isBin fuel s input c).2.2 := by
  induction fuel generalizing s input c with
  | zero => exact setInflate_beside c s
  | succ fuel ih =>
      unfold inflateLoop
      extract_lets r rest c₁ c₂
      split
      · exact setInflate_beside c _
      split
      · exact setInflate_beside c _
      have hturn : Beside c c₂ := by
        have h₁ : Beside c c₁ := setInflate_beside c _
        simp only [c₂]
        split
        · exact h₁.trans (message_beside env l.site r.out isBin false 0 c₁)
        · exact h₁
      split
      · exact hturn
      split
      · exact hturn
      · exact hturn.trans (ih r.state rest c₂)

theorem alloc_beside (c : Conn σ δ) : Beside c (c.alloc env).2 := .of_fields (.of_fields rfl) rfl

theorem inflateRest_beside (c : Conn σ δ) : Beside c (c.inflateRest env) :=
  .of_fields (.of_fields rfl) rfl

theorem decompressStreamChunk_beside (data : Bytes) (isBin : Bool) (c : Conn σ δ) :
    Beside c (decompressStreamChunk env data isBin c).2 := by
  unfold decompressStreamChunk
  split
  · exact .refl c
  split
  · exact .refl c
  · dsimp only
    split
    · exact alloc_beside env c
    · exact (alloc_beside env c).trans (inflateLoop_beside env _ _ _ _ _ _)

theorem decompressStreamEnd_leaves (isBin : Bool) (c : Conn σ δ) :
    Leaves c (decompressStreamEnd env isBin c).2 := by
  unfold decompressStreamEnd
  split
  · exact .refl c
  split
  · exact .refl c
  · rename_i df _
    have hloop : Leaves c (inflateLoop env ⟨.inflateEnd, .syncFlush, true, true⟩ isBin
        (inflateFuel env.zlib df.inflate deflateTail) df.inflate deflateTail (c.alloc env).2).2.2 :=
      ((alloc_beside env c).trans (inflateLoop_beside env _ _ _ _ _ _)).toLeaves
    dsimp only
    split
    · exact (alloc_beside env c).toLeaves
    split
    · exact hloop
    · refine Leaves.trans ?_ (inflateRest_beside env _).toLeaves
      split
      · exact (hloop.trans (.msg _ _)).trans (message_beside env _ _ _ _ _ _).toLeaves
      · exact hloop

theorem decompressOneshot_leaves (data : Bytes) (isBin : Bool) (c : Conn σ δ) :
    Leaves c (decompressOneshot env data isBin c).2 := by
  unfold decompressOneshot
  split
  · exact .refl c
  split
  · exact .refl c
  · rename_i df _
    have hallocs : Leaves c ((c.alloc env).2.alloc env).2 :=
      ((alloc_beside env c).trans (alloc_beside env _)).toLeaves
    dsimp only
    split
    · exact (alloc_beside env c).toLeaves
    split
    · exact hallocs
    have hloop := hallocs.trans (inflateLoop_beside env ⟨.inflateOneshot, .syncFlush, true, true⟩ isBin
      (inflateFuel env.zlib df.inflate (availIn (data ++ deflateTail))) df.inflate
      (availIn (data ++ deflateTail)) _).toLeaves
    split
    · exact hloop
    · exact hloop.trans ((message_beside env _ _ _ _ _ _).trans (inflateRest_beside env _)).toLeaves

theorem msgEnd_leaves (isBin : Bool) (c : Conn σ δ) : Leaves c (msgEnd env isBin c) := by
  unfold msgEnd
  extract_lets _ _ c'
  have hc' : Leaves c c' := by
    simp only [c']
    split
    · exact .refl c
    split
    · exact decompressStreamEnd_leaves env isBin c
    split
    · exact (message_beside env _ _ _ _ _ _).toLeaves.trans (.msg _ _)
    · exact .refl c
  exact hc'.trans ((Leaves.frag c' []).trans (.msg _ _))

theorem fragAppend_leaves (data : Bytes) (c : Conn σ δ) : Leaves c (fragAppend env data c).2 := by
  unfold fragAppend
  split
  · exact .refl c
  split
  · exact .refl c
  extract_lets c₁
  have h₁ : Leaves c c₁ := by
    simp only [c₁]
    split
    · split
      · exact (decompressStreamChunk_beside env _ _ _).toLeaves
      · exact (message_beside env _ _ _ _ _ _).toLeaves
    · exact .refl c
  have hstore : ∀ c' : Conn σ δ, Leaves c c' → ∀ b m, Leaves c { c' with frag := b, msg := m } :=
    fun c' h b m => (h.trans (.frag c' b)).trans (.msg _ m)
  by_cases hover : c.frag.length + data.length > env.recvCap
  · rw [if_pos hover]
    by_cases hstop : env.onMessage.isSome = true ∧ c₁.frag ≠ [] ∧ c₁.destroyed = true
    · rw [if_pos hstop]
      exact h₁
    · rw [if_neg hstop]
      exact hstore _ (h₁.trans (.frag c₁ [])) _ _
  · rw [if_neg hover]
    exact hstore c (.refl c) _ _

theorem fragBlocks_leaves (fin : Bool) (fuel : Nat) (c : Conn σ δ) :
    Leaves c (fragBlocks env fin fuel c).2 := by
  induction fuel generalizing c with
  | zero => exact .refl c
  | succ fuel ih =>
      unfold fragBlocks
      split
      · extract_lets last msg c₁ block c₂
        have h₁ : Leaves c c₁ := by
          simp only [c₁]
          split
          · exact .msg c _
          · exact .refl c
        have h₂ : Leaves c c₂ := by
          simp only [c₂]
          split
          · exact h₁.trans (decompressStreamChunk_beside env _ _ _).toLeaves
          · exact h₁.trans (message_beside env _ _ _ _ _ _).toLeaves
        split
        · exact h₂
        · exact (h₂.trans (.frag c₂ _)).trans (ih _)
      · exact .refl c

theorem fragRest_leaves (isBin : Bool) (c : Conn σ δ) : Leaves c (fragRest env isBin c) := by
  unfold fragRest
  split
  · exact msgEnd_leaves env isBin c
  split
  · have hchunk := (decompressStreamChunk_beside env c.frag isBin c).toLeaves
    dsimp only
    split
    · exact hchunk
    · exact (hchunk.trans (.frag _ [])).trans (msgEnd_leaves env isBin _)
  split
  · exact (sendCloseCode_beside 1007 c).toLeaves
  · extract_lets _ c₁ c₂
    have h₂ : Leaves c c₂ := (Leaves.msg c _).trans (message_beside env _ _ _ _ _ _).toLeaves
    split
    · exact h₂
    · exact (h₂.trans (.frag c₂ [])).trans (msgEnd_leaves env isBin _)

theorem fragFlush_leaves (fin : Bool) (c : Conn σ δ) : Leaves c (fragFlush env fin c) := by
  have h₁ := (Leaves.emit c (.fragFlush c.msg.compressed fin c.frag.length)).trans
    (fragBlocks_leaves env fin c.frag.length _)
  unfold fragFlush
  dsimp only
  split
  · exact h₁
  · exact h₁.trans (fragRest_leaves env _ _)

theorem fragFlushTail_leaves (c : Conn σ δ) : Leaves c (fragFlushTail env c) := by
  unfold fragFlushTail
  split
  · exact .refl c
  · extract_lets c'
    have hc' : Leaves c c' := by
      simp only [c']
      split
      · exact (decompressStreamChunk_beside env _ _ _).toLeaves
      split
      · exact (message_beside env _ _ _ _ _ _).toLeaves
      · exact .refl c
    exact hc'.trans (.frag c' [])

-- ---- frames ----

theorem handleSingle_leaves (hdr : FrameHeader) (payload : Bytes) (c : Conn σ δ) :
    Leaves c (handleSingle env hdr payload c).2 := by
  unfold handleSingle
  split
  · exact (sendCloseCode_beside 1007 c).toLeaves
  split
  · exact (message_beside env _ _ _ _ _ _).toLeaves
  · exact .refl c

theorem handleTextBinary_leaves (hdr : FrameHeader) (payload : Bytes) (c : Conn σ δ) :
    Leaves c (handleTextBinary env hdr payload c).2 := by
  unfold handleTextBinary
  split
  · exact .refl c
  extract_lets c₁ m c₂
  have h₁ : Leaves c c₁ := .emit c _
  split
  · exact h₁.trans (handleSingle_leaves env hdr payload c₁)
  · have h₂ : Leaves c (fragAppend env payload c₂).2 :=
      (h₁.trans (.msg c₁ _)).trans (fragAppend_leaves env payload c₂)
    dsimp only
    split
    · exact h₂
    · exact h₂.trans (fragFlush_leaves env false _)

theorem handleCont_leaves (hdr : FrameHeader) (payload : Bytes) (c : Conn σ δ) :
    Leaves c (handleCont env hdr payload c).2 := by
  unfold handleCont
  split
  · exact .refl c
  extract_lets c₁
  have h₁ : Leaves c (fragAppend env payload c₁).2 :=
    (Leaves.emit c _).trans (fragAppend_leaves env payload c₁)
  dsimp only
  split
  · exact h₁
  · exact h₁.trans (fragFlush_leaves env hdr.fin _)

theorem dispatch_leaves {hdr : FrameHeader} {payload : Bytes} {c : Conn σ δ} {r : Int × Conn σ δ}
    (h : dispatch env hdr payload c = some r) : Leaves c r.2 := by
  unfold dispatch at h
  split_ifs at h
  · cases h
    exact handleTextBinary_leaves env hdr payload c
  · cases h
    exact handleCont_leaves env hdr payload c
  · cases h
    exact (sendFrame_beside Opcode.pong (.bytes payload) c).toLeaves
  · cases h
    exact (callback_beside env env.onPong (.onPong payload) c).toLeaves

theorem acceptClose_beside (payload : Bytes) (code : Nat) (reason : Bytes) (c : Conn σ δ) :
    Beside c (acceptClose env payload code reason c) := by
  unfold acceptClose
  split
  · exact enterClosed_beside _ _ c
  · exact (sendFrame_beside _ _ c).trans (enterClosed_beside _ _ _)

theorem handleClose_beside (payload : Bytes) (c : Conn σ δ) :
    Beside c (handleClose env payload c).2 := by
  unfold handleClose
  split
  · extract_lets code reason
    split
    · exact .refl c
    split
    · exact sendCloseCode_beside 1007 c
    · exact acceptClose_beside env payload code reason c
  · exact acceptClose_beside env payload 1000 [] c

-- A frame that was in the buffer as a whole has been taken out of it, or its loop returns.
def Dealt (hdr : FrameHeader) (size : Nat) (c : Conn σ δ) (r : Next × Conn σ δ) : Prop :=
  match r.1 with
  | .goOn => Leaves { c with recv := c.recv.drop (size + hdr.payloadLen) } r.2
  | .ret _ => Leaves c r.2

variable {env}

theorem Leaves.behind {c c' : Conn σ δ} (h : Leaves c c') (f : Bytes → Bytes) :
    Leaves { c with recv := f c.recv } { c' with recv := f c'.recv } :=
  ⟨⟨congrArg f h.recv, h.remaining, h.fin, h.mask, h.maskKey, h.maskOff⟩, h.destroyed,
    h.opening, h.handshake⟩

theorem Dealt.after {hdr : FrameHeader} {size : Nat} {c c₁ : Conn σ δ} {r : Next × Conn σ δ}
    (h : Leaves c c₁) (h' : Dealt hdr size c₁ r) : Dealt hdr size c r := by
  unfold Dealt at h' ⊢
  split at h'
  · exact (h.behind _).trans h'
  · exact h.trans h'

theorem oneshotFrame_dealt (hdr : FrameHeader) (size : Nat) (payload : Bytes) (c : Conn σ δ) :
    Dealt hdr size c (oneshotFrame env hdr size payload c) := by
  unfold oneshotFrame
  split
  · exact .refl c
  have h : Leaves c (decompressOneshot env payload (hdr.opcode == Opcode.binary)
      (c.emit (.dataFrame hdr.opcode hdr.payloadLen hdr.fin true))).2 :=
    (Leaves.emit c _).trans (decompressOneshot_leaves env _ _ _)
  dsimp only
  split
  · exact h
  split
  · exact h
  · exact h.behind _

theorem plainFrame_dealt (hdr : FrameHeader) (size : Nat) (payload : Bytes) (c : Conn σ δ) :
    Dealt hdr size c (plainFrame env hdr size payload c) := by
  unfold plainFrame
  split
  · exact .refl c
  split
  · exact .refl c
  split
  · exact (handleClose_beside env payload c).toLeaves
  split
  · exact .refl c
  · rename_i r c' hr
    have h : Leaves c c' := dispatch_leaves env hr
    split
    · exact h
    split
    · exact h
    · exact h.behind _

theorem noteCompressed_leaves (hdr : FrameHeader) (c : Conn σ δ) : Leaves c (noteCompressed hdr c) := by
  unfold noteCompressed
  split
  · exact .msg c _
  · exact .refl c

-- The payload of the frame is unmasked in place once its mask bit has been checked.
theorem wholeFrame_dealt (hdr : FrameHeader) (size : Nat) (c : Conn σ δ) :
    Dealt hdr size c (wholeFrame env hdr size c) ∨
      Dealt hdr size (unmaskFrame hdr size c) (wholeFrame env hdr size c) := by
  unfold wholeFrame
  extract_lets payload c₁
  split
  · exact .inl (.refl c)
  right
  change Dealt hdr size c₁ _
  split
  · exact .refl c₁
  split
  · exact .refl c₁
  split
  · exact .refl c₁
  split
  · exact .refl c₁
  split
  · exact oneshotFrame_dealt hdr size payload c₁
  · exact (plainFrame_dealt hdr size payload _).after (noteCompressed_leaves hdr c₁)

variable (env) in
theorem joinStream_leaves (hdr : FrameHeader) (c : Conn σ δ) : Leaves c (joinStream env hdr c).2 := by
  unfold joinStream
  split
  · dsimp only
    split
    · exact fragFlushTail_leaves env c
    · exact (fragFlushTail_leaves env c).trans (.msg _ _)
  · exact .refl c
  · exact .msg c _

end Sevent.Ws.Conn
