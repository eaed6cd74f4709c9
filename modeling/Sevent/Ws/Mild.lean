import Sevent.Ws.Fault

-- No function of the receiving side destroys the connection, reopens it or forgets its log, as
-- long as the callbacks are gentle.
namespace Sevent.Ws.Conn

variable {σ δ : Type}

theorem Mild.same {c c' : Conn σ δ} (hd : c.destroyed = false) (hdes : c'.destroyed = c.destroyed)
    (hstate : c'.state = c.state) (hstream : c'.stream = c.stream) (hlog : c'.log = c.log) :
    Mild c c' :=
  ⟨hdes.trans hd, .inl hstate, .inl hstream, hlog ▸ List.prefix_rfl⟩

-- The next function runs on a connection with other buffers.
theorem Mild.next {a b b' c : Conn σ δ} (h : Mild a b) (hf : b'.destroyed = false → Mild b' c)
    (hdes : b'.destroyed = b.destroyed := by rfl) (hstate : b'.state = b.state := by rfl)
    (hstream : b'.stream = b.stream := by rfl) (hlog : b'.log = b.log := by rfl) : Mild a c :=
  h.trans ((Mild.same h.destroyed hdes hstate hstream hlog).trans (hf (hdes.trans h.destroyed)))

theorem Calm.next {a b b' c : Conn σ δ} (h : Calm a b) (hf : b'.destroyed = false → Calm b' c)
    (hdes : b'.destroyed = b.destroyed := by rfl) (hstate : b'.state = b.state := by rfl)
    (hstream : b'.stream = b.stream := by rfl) (hlog : b'.log = b.log := by rfl) : Calm a c :=
  h.trans ((Calm.same h.destroyed hdes hstate hstream hlog).trans (hf (hdes.trans h.destroyed)))

variable {env : Env σ δ} (hg : env.Gentle) (hm : env.onMessage.isSome = true)

theorem alloc_calm {c : Conn σ δ} (hd : c.destroyed = false) : Calm c (c.alloc env).2 :=
  emit_calm hd (.alloc (env.alloc c.log))

include hg hm

-- ---- inflate ----

theorem inflateLoop_calm (l : InflateLoop) (isBin : Bool) (fuel : Nat) (s : σ) (input : Bytes)
    {c : Conn σ δ} (hd : c.destroyed = false) :
    Calm c (inflateLoop env l isBin fuel s input c).2.2 := by
  induction fuel generalizing s input c with
  | zero => exact .same hd rfl rfl rfl rfl
  | succ fuel ih =>
      unfold inflateLoop
      extract_lets r rest c₁ c₂
      by_cases h1 : r.res = .bufError ∧ rest ≠ []
      · rw [if_pos h1]
        exact .same hd rfl rfl rfl rfl
      rw [if_neg h1]
      by_cases h2 : r.res = .error ∨ (r.res = .streamEnd ∧ !l.acceptEnd)
      · rw [if_pos h2]
        exact .same hd rfl rfl rfl rfl
      rw [if_neg h2]
      have hturn : Calm c c₂ := by
        have h₁ : Calm c c₁ := .same hd rfl rfl rfl rfl
        refine h₁.trans ?_
        by_cases hout : r.out ≠ []
        · simp only [c₂, if_pos hout]
          exact message_calm hg _ _ _ _ _ hd
        · simp only [c₂, if_neg hout]
          exact .refl hd
      split
      · exact hturn
      · split
        · exact hturn
        · exact hturn.trans (ih r.state rest hturn.destroyed)

theorem decompressStreamChunk_calm (data : Bytes) (isBin : Bool) {c : Conn σ δ}
    (hd : c.destroyed = false) : Calm c (decompressStreamChunk env data isBin c).2 := by
  unfold decompressStreamChunk
  split
  · exact .refl hd
  · cases hdf : c.deflate with
    | none => exact .refl hd
    | some df =>
        have ha : Calm c (c.alloc env).2 := alloc_calm hd
        dsimp only
        split
        · exact ha
        · exact ha.trans (inflateLoop_calm hg hm _ isBin _ _ _ ha.destroyed)

omit hg hm in
theorem inflateRest_calm {c : Conn σ δ} (hd : c.destroyed = false) : Calm c (c.inflateRest env) :=
  .same hd rfl rfl rfl rfl

theorem decompressStreamEnd_calm (isBin : Bool) {c : Conn σ δ} (hd : c.destroyed = false) :
    Calm c (decompressStreamEnd env isBin c).2 := by
  unfold decompressStreamEnd
  split
  · exact .refl hd
  · cases hdf : c.deflate with
    | none => exact .refl hd
    | some df =>
        have ha : Calm c (c.alloc env).2 := alloc_calm hd
        dsimp only
        split
        · exact ha
        · have hl := ha.trans (inflateLoop_calm hg hm ⟨.inflateEnd, .syncFlush, true, true⟩ isBin
            (inflateFuel env.zlib df.inflate deflateTail) df.inflate deflateTail ha.destroyed)
          split
          · exact hl
          · generalize (inflateLoop env _ _ _ _ _ _).2.2 = c' at hl ⊢
            split
            · have hsend : Calm c (message env .inflateEnd [] isBin true 0
                  { c' with msg := { c'.msg with finSent := true } }) :=
                hl.next (message_calm hg .inflateEnd [] isBin true 0)
              exact hsend.trans (inflateRest_calm hsend.destroyed)
            · exact hl.trans (inflateRest_calm hl.destroyed)

theorem decompressOneshot_calm (data : Bytes) (isBin : Bool) {c : Conn σ δ}
    (hd : c.destroyed = false) : Calm c (decompressOneshot env data isBin c).2 := by
  unfold decompressOneshot
  split
  · exact .refl hd
  · cases hdf : c.deflate with
    | none => exact .refl hd
    | some df =>
        have ha : Calm c (c.alloc env).2 := alloc_calm hd
        dsimp only
        split
        · exact ha
        · have ha' : Calm c ((c.alloc env).2.alloc env).2 := ha.trans (alloc_calm ha.destroyed)
          split
          · exact ha'
          · have hl := ha'.trans (inflateLoop_calm hg hm ⟨.inflateOneshot, .syncFlush, true, true⟩
              isBin (inflateFuel env.zlib df.inflate (availIn (data ++ deflateTail))) df.inflate
              (availIn (data ++ deflateTail)) ha'.destroyed)
            split
            · exact hl
            · have hsend := hl.trans (message_calm hg .inflateOneshot [] isBin true 0
                hl.destroyed)
              exact hsend.trans (inflateRest_calm hsend.destroyed)

-- Inflating leaves the buffers alone.
theorem inflateLoop_sameBuf (l : InflateLoop) (isBin : Bool) (fuel : Nat) (s : σ) (input : Bytes)
    {c : Conn σ δ} (hd : c.destroyed = false) :
    SameBuf c (inflateLoop env l isBin fuel s input c).2.2 := by
  induction fuel generalizing s input c with
  | zero => exact .of_fields rfl
  | succ fuel ih =>
      unfold inflateLoop
      extract_lets r rest c₁ c₂
      by_cases h1 : r.res = .bufError ∧ rest ≠ []
      · rw [if_pos h1]
        exact .of_fields rfl
      rw [if_neg h1]
      by_cases h2 : r.res = .error ∨ (r.res = .streamEnd ∧ !l.acceptEnd)
      · rw [if_pos h2]
        exact .of_fields rfl
      rw [if_neg h2]
      have hturn : SameBuf c c₂ ∧ c₂.destroyed = false := by
        have h₁ : SameBuf c c₁ := .of_fields rfl
        by_cases hout : r.out ≠ []
        · simp only [c₂, if_pos hout]
          have hd₁ : c₁.destroyed = false := hd
          exact ⟨h₁.trans (message_sameBuf hg hm _ _ _ _ _ hd₁),
            (message_calm hg _ _ _ _ _ hd₁).destroyed⟩
        · simp only [c₂, if_neg hout]
          exact ⟨h₁, hd⟩
      split
      · exact hturn.1
      · split
        · exact hturn.1
        · exact hturn.1.trans (ih r.state rest hturn.2)

theorem decompressStreamChunk_sameBuf (data : Bytes) (isBin : Bool) {c : Conn σ δ}
    (hd : c.destroyed = false) : SameBuf c (decompressStreamChunk env data isBin c).2 := by
  unfold decompressStreamChunk
  split
  · exact .refl c
  · cases hdf : c.deflate with
    | none => exact .refl c
    | some df =>
        have ha : SameBuf c (c.alloc env).2 := .of_fields rfl
        dsimp only
        split
        · exact ha
        · exact ha.trans (inflateLoop_sameBuf hg hm _ isBin _ _ _ (alloc_calm hd).destroyed)

theorem decompressStreamEnd_sameFrame (isBin : Bool) {c : Conn σ δ} (hd : c.destroyed = false) :
    SameFrame c (decompressStreamEnd env isBin c).2 := by
  unfold decompressStreamEnd
  split
  · exact .refl c
  · cases hdf : c.deflate with
    | none => exact .refl c
    | some df =>
        have ha : SameBuf c (c.alloc env).2 := .of_fields rfl
        have hd₁ : (c.alloc env).2.destroyed = false := hd
        dsimp only
        split
        · exact ha.toSameFrame
        · have hl := (ha.trans (inflateLoop_sameBuf hg hm ⟨.inflateEnd, .syncFlush, true, true⟩ isBin
            (inflateFuel env.zlib df.inflate deflateTail) df.inflate deflateTail hd₁)).toSameFrame
          have hc := inflateLoop_calm hg hm ⟨.inflateEnd, .syncFlush, true, true⟩ isBin
            (inflateFuel env.zlib df.inflate deflateTail) df.inflate deflateTail hd₁
          split
          · exact hl
          · generalize (inflateLoop env _ _ _ _ _ _).2.2 = c' at hl hc ⊢
            split
            · have hset : SameFrame c' { c' with msg := { c'.msg with finSent := true } } :=
                .of_fields rfl
              have hd₂ : { c' with msg := { c'.msg with finSent := true } }.destroyed = false :=
                hc.destroyed
              have hsend := hset.trans
                (message_sameBuf hg hm .inflateEnd [] isBin true 0 hd₂).toSameFrame
              exact hl.trans (hsend.trans (.of_fields rfl))
            · exact hl.trans (.of_fields rfl)

theorem decompressOneshot_sameBuf (data : Bytes) (isBin : Bool) {c : Conn σ δ}
    (hd : c.destroyed = false) : SameBuf c (decompressOneshot env data isBin c).2 := by
  unfold decompressOneshot
  split
  · exact .refl c
  · cases hdf : c.deflate with
    | none => exact .refl c
    | some df =>
        have ha : SameBuf c (c.alloc env).2 := .of_fields rfl
        dsimp only
        split
        · exact ha
        · have ha' : SameBuf c ((c.alloc env).2.alloc env).2 := .of_fields rfl
          have hd' : ((c.alloc env).2.alloc env).2.destroyed = false := hd
          split
          · exact ha'
          · have hl := ha'.trans (inflateLoop_sameBuf hg hm ⟨.inflateOneshot, .syncFlush, true, true⟩
              isBin (inflateFuel env.zlib df.inflate (availIn (data ++ deflateTail))) df.inflate
              (availIn (data ++ deflateTail)) hd')
            have hc := inflateLoop_calm hg hm ⟨.inflateOneshot, .syncFlush, true, true⟩
              isBin (inflateFuel env.zlib df.inflate (availIn (data ++ deflateTail))) df.inflate
              (availIn (data ++ deflateTail)) hd'
            split
            · exact hl
            · exact (hl.trans (message_sameBuf hg hm .inflateOneshot [] isBin true 0
                hc.destroyed)).trans (.of_fields rfl)

-- ---- messages in pieces ----

theorem msgEnd_calm (isBin : Bool) {c : Conn σ δ} (hd : c.destroyed = false) :
    Calm c (msgEnd env isBin c) := by
  unfold msgEnd
  extract_lets _ _ c'
  have hc' : Calm c c' := by
    simp only [c']
    split
    · exact .refl hd
    · split
      · exact decompressStreamEnd_calm hg hm isBin hd
      · split
        · have h := message_calm hg .msgEnd [] isBin true c.msg.total hd
          exact h.trans (.same h.destroyed rfl rfl rfl rfl)
        · exact .refl hd
  exact hc'.trans (.same hc'.destroyed rfl rfl rfl rfl)

theorem streamChunks_calm (fuel : Nat) {c : Conn σ δ} (hd : c.destroyed = false) :
    Calm c (streamChunks env fuel c).2 := by
  induction fuel generalizing c with
  | zero => exact .refl hd
  | succ fuel ih =>
      unfold streamChunks
      split
      · exact .refl hd
      split
      · exact .refl hd
      extract_lets chunk last data c₁ advance c₂ _ c₃
      have h₁ : Calm c c₁ := .same hd rfl rfl rfl rfl
      have hnext : ∀ c', Calm c c' → Calm c (streamChunks env fuel (advance c')).2 := fun c' h =>
        h.next ih
      split
      · have h₂ := h₁.trans (decompressStreamChunk_calm hg hm data c₁.isBin h₁.destroyed)
        dsimp only
        split
        · exact h₂
        · exact hnext _ h₂
      · have h₂ : Calm c c₂ := h₁.trans (message_calm hg .streamConsume data c₁.isBin last _
          h₁.destroyed)
        have h₃ : Calm c c₃ := by
          simp only [c₃]
          split
          · exact h₂.trans (.same h₂.destroyed rfl rfl rfl rfl)
          · exact h₂
        split
        · exact h₃
        · exact hnext _ h₃

theorem streamConsume_calm {c : Conn σ δ} (hd : c.destroyed = false) :
    Calm c (streamConsume env c) := by
  have h₁ := streamChunks_calm hg hm c.recv.length hd
  unfold streamConsume
  dsimp only
  split
  · exact h₁
  split
  · exact h₁.trans (msgEnd_calm hg hm _ h₁.destroyed)
  · exact h₁

theorem fragAppend_calm (data : Bytes) {c : Conn σ δ} (hd : c.destroyed = false) :
    Calm c (fragAppend env data c).2 := by
  unfold fragAppend
  split
  · exact .refl hd
  split
  · exact .refl hd
  extract_lets c₁
  have h₁ : Calm c c₁ := by
    simp only [c₁]
    split
    · split
      · exact decompressStreamChunk_calm hg hm _ _ hd
      · exact message_calm hg _ _ _ _ _ hd
    · exact .refl hd
  by_cases hover : c.frag.length + data.length > env.recvCap
  · simp only [if_pos hover]
    split
    · exact h₁
    · exact h₁.trans (.same h₁.destroyed rfl rfl rfl rfl)
  · simp only [if_neg hover]
    exact .same hd rfl rfl rfl rfl

theorem fragBlocks_calm (fin : Bool) (fuel : Nat) {c : Conn σ δ} (hd : c.destroyed = false) :
    Calm c (fragBlocks env fin fuel c).2 := by
  induction fuel generalizing c with
  | zero => exact .refl hd
  | succ fuel ih =>
      unfold fragBlocks
      split
      · extract_lets last _ c₁ block c₂
        have h₁ : Calm c c₁ := by
          simp only [c₁]
          split <;> exact .same hd rfl rfl rfl rfl
        have h₂ : Calm c c₂ := by
          simp only [c₂]
          split
          · exact h₁.trans (decompressStreamChunk_calm hg hm _ _ h₁.destroyed)
          · exact h₁.trans (message_calm hg _ _ _ _ _ h₁.destroyed)
        split
        · exact h₂
        · exact h₂.next ih
      · exact .refl hd

-- The rest of the message, when it is not refused.
theorem fragRest_calm (isBin : Bool) {c : Conn σ δ} (hd : c.destroyed = false)
    (hv : c.msg.compressed = true ∨ isBin = true ∨ utf8Validate c.frag = true) :
    Calm c (fragRest env isBin c) := by
  have hclear : ∀ c', Calm c c' → Calm c (msgEnd env isBin { c' with frag := [] }) := fun c' h =>
    h.next (msgEnd_calm hg hm isBin)
  unfold fragRest
  split
  · exact msgEnd_calm hg hm isBin hd
  split
  · have h₁ := decompressStreamChunk_calm hg hm c.frag isBin hd
    dsimp only
    split
    · exact h₁
    · exact hclear _ h₁
  rename_i hcomp
  rw [if_neg (by rcases hv with hv | hv | hv <;> simp_all)]
  have h₁ : Calm c { c with msg := { c.msg with finSent := true } } := .same hd rfl rfl rfl rfl
  have h₂ := h₁.trans (message_calm hg .fragFlush c.frag isBin true c.msg.total h₁.destroyed)
  dsimp only
  split
  · exact h₂
  · exact hclear _ h₂

theorem fragRest_mild (isBin : Bool) {c : Conn σ δ} (hd : c.destroyed = false) :
    Mild c (fragRest env isBin c) := by
  by_cases hv : c.msg.compressed = true ∨ isBin = true ∨ utf8Validate c.frag = true
  · exact (fragRest_calm hg hm isBin hd hv).toMild
  · push Not at hv
    obtain ⟨hcomp, hbin, hbad⟩ := hv
    unfold fragRest
    by_cases hnil : c.frag = []
    · rw [if_pos hnil]
      exact (msgEnd_calm hg hm isBin hd).toMild
    · rw [if_neg hnil, if_neg hcomp, if_pos (by simp [hbin, hbad])]
      exact (sendCloseCode_ended (fun n _ hd _ => notify_aside hg n hd) 1007 hd).aside.toMild

theorem fragFlush_entered (fin : Bool) {c : Conn σ δ} (hd : c.destroyed = false) :
    Mild (c.emit (.fragFlush c.msg.compressed fin c.frag.length)) (fragFlush env fin c) := by
  have h₁ := fragBlocks_calm hg hm fin c.frag.length
    (show (c.emit (.fragFlush c.msg.compressed fin c.frag.length)).destroyed = false from hd)
  unfold fragFlush
  dsimp only
  split
  · exact h₁.toMild
  · exact h₁.toMild.trans (fragRest_mild hg hm _ h₁.destroyed)

theorem fragFlush_mild (fin : Bool) {c : Conn σ δ} (hd : c.destroyed = false) :
    Mild c (fragFlush env fin c) :=
  (emit_aside hd _ rfl).toMild.trans (fragFlush_entered hg hm fin hd)

theorem fragBlocks_compressed_eq (fin : Bool) (fuel : Nat) {c : Conn σ δ}
    (hd : c.destroyed = false) : (fragBlocks env fin fuel c).2.msg.compressed = c.msg.compressed := by
  induction fuel generalizing c with
  | zero => rfl
  | succ fuel ih =>
      unfold fragBlocks
      split
      · extract_lets last _ c₁ block c₂
        have h₁ : c₁.msg.compressed = c.msg.compressed ∧ c₁.destroyed = false := by
          simp only [c₁]
          split <;> exact ⟨rfl, hd⟩
        have h₂ : c₂.msg.compressed = c.msg.compressed ∧ c₂.destroyed = false := by
          simp only [c₂]
          split
          · exact ⟨(congrArg MsgState.compressed
              (decompressStreamChunk_sameBuf hg hm _ _ h₁.2).msg).trans h₁.1,
              (decompressStreamChunk_calm hg hm _ _ h₁.2).destroyed⟩
          · exact ⟨(congrArg MsgState.compressed (message_sameBuf hg hm _ _ _ _ _ h₁.2).msg).trans
              h₁.1, (message_calm hg _ _ _ _ _ h₁.2).destroyed⟩
        split
        · exact h₂.1
        · exact (ih (c := { c₂ with frag := c₂.frag.drop env.recvCap }) h₂.2).trans h₂.1
      · rfl

-- No message but an uncompressed TEXT is refused.
theorem fragFlush_calm (fin : Bool) {c : Conn σ δ} (hd : c.destroyed = false)
    (hv : c.msg.compressed = true ∨ c.isBin = true) : Calm c (fragFlush env fin c) := by
  have h₀ : Calm c (c.emit (.fragFlush c.msg.compressed fin c.frag.length)) := emit_calm hd _
  have h₁ := h₀.trans (fragBlocks_calm hg hm fin c.frag.length h₀.destroyed)
  have hcomp := fragBlocks_compressed_eq hg hm fin c.frag.length h₀.destroyed
  unfold fragFlush
  dsimp only
  split
  · exact h₁
  · refine h₁.trans (fragRest_calm hg hm _ h₁.destroyed ?_)
    rcases hv with hv | hv
    · exact .inl (hcomp.trans hv)
    · exact .inr (.inl hv)

theorem fragFlushTail_calm {c : Conn σ δ} (hd : c.destroyed = false) :
    Calm c (fragFlushTail env c) := by
  unfold fragFlushTail
  split
  · exact .refl hd
  · extract_lets c₁
    have h₁ : Calm c c₁ := by
      simp only [c₁]
      split
      · exact decompressStreamChunk_calm hg hm _ _ hd
      · exact message_calm hg _ _ _ _ _ hd
    exact h₁.trans (.same h₁.destroyed rfl rfl rfl rfl)

-- ---- frames ----

theorem handleSingle_mild (hdr : FrameHeader) (payload : Bytes) {c : Conn σ δ}
    (hd : c.destroyed = false) : Mild c (handleSingle env hdr payload c).2 := by
  unfold handleSingle
  rw [if_pos hm]
  split
  · exact (sendCloseCode_ended (fun n _ hd _ => notify_aside hg n hd) 1007 hd).aside.toMild
  · exact (message_calm hg _ _ _ _ _ hd).toMild

theorem handleTextBinary_mild (hdr : FrameHeader) (payload : Bytes) {c : Conn σ δ}
    (hd : c.destroyed = false) : Mild c (handleTextBinary env hdr payload c).2 := by
  have h₀ : Mild c (c.emit (.dataFrame hdr.opcode hdr.payloadLen hdr.fin c.msg.compressed)) :=
    (emit_calm hd _).toMild
  unfold handleTextBinary
  split
  · exact .refl hd
  split
  · exact h₀.trans (handleSingle_mild hg hm hdr payload h₀.destroyed)
  · extract_lets c₀ msg c₁
    have h₁ : Mild c c₁ := h₀.trans (.same h₀.destroyed rfl rfl rfl rfl)
    have h₂ := h₁.trans (fragAppend_calm hg hm payload h₁.destroyed).toMild
    dsimp only
    split
    · exact h₂
    · exact h₂.trans (fragFlush_mild hg hm false h₂.destroyed)

theorem handleCont_mild (hdr : FrameHeader) (payload : Bytes) {c : Conn σ δ}
    (hd : c.destroyed = false) : Mild c (handleCont env hdr payload c).2 := by
  have h₀ : Mild c (c.emit (.dataFrame hdr.opcode hdr.payloadLen hdr.fin c.msg.compressed)) :=
    (emit_calm hd _).toMild
  have h₂ := h₀.trans (fragAppend_calm hg hm payload h₀.destroyed).toMild
  unfold handleCont
  split
  · exact .refl hd
  · dsimp only
    split
    · exact h₂
    · exact h₂.trans (fragFlush_mild hg hm hdr.fin h₂.destroyed)

omit hm in
theorem handlePing_aside (payload : Bytes) {c : Conn σ δ} (hd : c.destroyed = false) :
    Aside c (handlePing env payload c).2 :=
  sendFrameRaw_aside (fun n _ hd _ => notify_aside hg n hd) _ _ _ hd

omit hm in
theorem handlePong_aside (payload : Bytes) {c : Conn σ δ} (hd : c.destroyed = false) :
    Aside c (handlePong env payload c).2 :=
  callback_aside hg hg.onPong _ rfl hd

omit hm in
theorem handlePing_calm (payload : Bytes) {c : Conn σ δ} (hd : c.destroyed = false) :
    Calm c (handlePing env payload c).2 :=
  sendFrameRaw_calm (fun n _ hd _ => notify_aside hg n hd) _ _ _ hd

omit hm in
theorem handlePong_calm (payload : Bytes) {c : Conn σ δ} (hd : c.destroyed = false) :
    Calm c (handlePong env payload c).2 :=
  callback_calm hg hg.onPong _ hd

omit hm in
theorem handleClose_mild (payload : Bytes) {c : Conn σ δ} (hd : c.destroyed = false) :
    Mild c (handleClose env payload c).2 := by
  have hn : ∀ n (c : Conn σ δ), c.destroyed = false → c.state = .closed → Aside c (notify env n c) :=
    fun n _ hd _ => notify_aside hg n hd
  have haccept : ∀ code reason, Mild c (acceptClose env payload code reason c) := by
    intro code reason
    unfold acceptClose
    split
    · exact (enterClosed_ended hn code reason hd).aside.toMild
    · have h₁ : Aside c (sendFrame env (notify env) Opcode.close (.bytes payload) c).2 :=
        sendFrameRaw_aside hn _ _ _ hd
      exact (h₁.trans (enterClosed_ended hn code reason h₁.destroyed).aside).toMild
  unfold handleClose
  split
  · dsimp only
    split
    · exact .refl hd
    split
    · exact (sendCloseCode_ended hn 1007 hd).aside.toMild
    · exact haccept _ _
  · exact haccept _ _

theorem dispatch_mild (hdr : FrameHeader) (payload : Bytes) {c : Conn σ δ}
    (hd : c.destroyed = false) {r : Int × Conn σ δ} (h : dispatch env hdr payload c = some r) :
    Mild c r.2 := by
  unfold dispatch at h
  split_ifs at h <;> cases h
  · exact handleTextBinary_mild hg hm hdr payload hd
  · exact handleCont_mild hg hm hdr payload hd
  · exact (handlePing_aside hg payload hd).toMild
  · exact (handlePong_aside hg payload hd).toMild

theorem oneshotFrame_calm (hdr : FrameHeader) (size : Nat) (payload : Bytes) {c : Conn σ δ}
    (hd : c.destroyed = false) : Calm c (oneshotFrame env hdr size payload c).2 := by
  have h₀ : Calm c (c.emit (.dataFrame hdr.opcode hdr.payloadLen hdr.fin true)) :=
    emit_calm hd _
  have h₁ := h₀.trans
    (decompressOneshot_calm hg hm payload (hdr.opcode == Opcode.binary) h₀.destroyed)
  unfold oneshotFrame
  split
  · exact .refl hd
  · dsimp only
    split_ifs
    · exact h₁
    · exact h₁
    · exact h₁.trans (.same h₁.destroyed rfl rfl rfl rfl)

theorem plainFrame_mild (hdr : FrameHeader) (size : Nat) (payload : Bytes) {c : Conn σ δ}
    (hd : c.destroyed = false) : Mild c (plainFrame env hdr size payload c).2 := by
  unfold plainFrame
  split
  · exact .refl hd
  split
  · exact .refl hd
  split
  · exact handleClose_mild hg payload hd
  · cases hr : dispatch env hdr payload c with
    | none => exact .refl hd
    | some r =>
        have h₁ := dispatch_mild hg hm hdr payload hd hr
        dsimp only
        split_ifs
        · exact h₁
        · exact h₁
        · exact h₁.trans (.same h₁.destroyed rfl rfl rfl rfl)

theorem wholeFrame_mild (hdr : FrameHeader) (size : Nat) {c : Conn σ δ}
    (hd : c.destroyed = false) : Mild c (wholeFrame env hdr size c).2 := by
  have h₁ : Mild c (unmaskFrame hdr size c) := .same hd rfl rfl rfl rfl
  have h₂ : Mild c (noteCompressed hdr (unmaskFrame hdr size c)) := by
    unfold noteCompressed
    split
    · exact h₁.trans (.same h₁.destroyed rfl rfl rfl rfl)
    · exact h₁
  unfold wholeFrame
  dsimp only
  split_ifs
  · exact .refl hd
  iterate 4 exact h₁
  · exact h₁.trans (oneshotFrame_calm hg hm hdr size _ h₁.destroyed).toMild
  · exact h₂.trans (plainFrame_mild hg hm hdr size _ h₂.destroyed)

theorem joinStream_calm (hdr : FrameHeader) {c : Conn σ δ} (hd : c.destroyed = false) :
    Calm c (joinStream env hdr c).2 := by
  unfold joinStream
  split
  · have h₁ := fragFlushTail_calm hg hm hd
    dsimp only
    split
    · exact h₁
    · exact h₁.trans (.same h₁.destroyed rfl rfl rfl rfl)
  · exact .refl hd
  · exact .same hd rfl rfl rfl rfl

theorem beginStream_calm (hdr : FrameHeader) (size : Nat) {c : Conn σ δ}
    (hd : c.destroyed = false) : Calm c (beginStream env hdr size c).2 := by
  unfold beginStream
  split_ifs
  iterate 6 exact .refl hd
  have h₀ : Calm c (c.emit (.dataFrame hdr.opcode hdr.payloadLen hdr.fin
      (c.msg.compressed || hdr.rsv1))) := emit_calm hd _
  have hroute := h₀.trans (emit_calm h₀.destroyed (.streamFrame c.msg.mode c.frag.length))
  have h₁ := hroute.trans (joinStream_calm hg hm hdr hroute.destroyed)
  dsimp only
  split
  · exact h₁
  · exact h₁.next (streamConsume_calm hg hm)

theorem processFrames_mild (fuel : Nat) {c : Conn σ δ} (hd : c.destroyed = false) :
    Mild c (processFrames env fuel c).2 := by
  induction fuel generalizing c with
  | zero => exact .refl hd
  | succ fuel ih =>
      unfold processFrames
      split
      · exact .refl hd
      split
      · exact .refl hd
      cases c.look env with
      | more => exact .refl hd
      | protocol => exact .refl hd
      | large hdr size =>
          have h₁ := (beginStream_calm hg hm hdr size hd).toMild
          dsimp only
          split
          · rename_i heq
            rwa [heq] at h₁
          · rename_i heq
            rwa [heq] at h₁
      | whole hdr size =>
          have h₁ := wholeFrame_mild hg hm hdr size hd
          dsimp only
          split
          · rename_i heq
            rw [heq] at h₁
            exact h₁.trans (ih h₁.destroyed)
          · rename_i heq
            rwa [heq] at h₁

theorem streamLoop_mild (fuel : Nat) {c : Conn σ δ} (hd : c.destroyed = false) :
    Mild c (streamLoop env fuel c).2 := by
  induction fuel generalizing c with
  | zero => exact .refl hd
  | succ fuel ih =>
      unfold streamLoop
      split
      · exact .refl hd
      extract_lets prev c₁
      have h₁ : Mild c c₁ := by
        simp only [c₁]
        split
        · exact (streamConsume_calm hg hm hd).toMild
        · exact .refl hd
      have h₂ : Mild c (if c₁.streamRemaining = 0 then runFrames env c₁ else (0, c₁)).2 := by
        split
        · exact h₁.trans (processFrames_mild hg hm _ h₁.destroyed)
        · exact h₁
      generalize (if c₁.streamRemaining = 0 then runFrames env c₁ else (0, c₁)) = r at h₂ ⊢
      dsimp only
      split
      · exact h₂
      split
      · exact h₂
      · exact h₂.trans (ih h₂.destroyed)

theorem frameData_mild {c : Conn σ δ} (hd : c.destroyed = false) : Mild c (frameData env c) := by
  have h₀ : Mild c (c.emit .frameData) := (emit_aside hd _ rfl).toMild
  have h₁ : Mild c (if (c.emit .frameData).msg.mode = .stream then
      streamLoop env ((c.emit .frameData).recv.length + 1) (c.emit .frameData)
      else runFrames env (c.emit .frameData)).2 := by
    split
    · exact h₀.trans (streamLoop_mild hg hm _ h₀.destroyed)
    · exact h₀.trans (processFrames_mild hg hm _ h₀.destroyed)
  unfold frameData
  extract_lets c₀
  generalize (if c₀.msg.mode = .stream then streamLoop env (c₀.recv.length + 1) c₀
    else runFrames env c₀) = r at h₁ ⊢
  dsimp only
  split
  · exact h₁.trans (fatal_ended (fun n _ hd _ => notify_aside hg n hd) _ h₁.destroyed).aside.toMild
  · exact h₁

end Sevent.Ws.Conn
