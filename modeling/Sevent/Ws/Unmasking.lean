import Sevent.Ws.Codec
import Sevent.Ws.Leaves
import Sevent.Ws.Shown

-- Streamed unmasking over whole runs: what stream_consume presents of a frame is its payload, each
-- byte unmasked once at its offset in the frame.
namespace Sevent.Ws

variable {σ δ : Type}

namespace Conn

variable {env : Env σ δ} {t : Tape}

-- ---- the invariant ----

-- In the payload of a streamed frame.
structure Inside (s : Streamed) (c : Conn σ δ) : Prop where
  mode : c.msg.mode = .stream
  mask : c.streamMask = s.hdr.mask
  key : s.hdr.mask = true → c.streamMaskKey = s.hdr.maskKey
  off : c.streamMaskOff = s.shown.length
  recv : c.recv = s.payload.drop s.shown.length

structure Live (env : Env σ δ) (t : Tape) (c : Conn σ δ) : Prop where
  -- recv_buf as it has been received, but for a whole frame at its front that has been refused
  raw : c.recv <:+ t.wire ∨ c.streamRemaining = 0 ∧
    ∃ hdr size, c.look env = .whole hdr size ∧ c.recv.drop (size + hdr.payloadLen) <:+ t.wire
  count : ∀ s ∈ t.frames.head?, s.shown.length + c.streamRemaining = s.hdr.payloadLen
  inside : 0 < c.streamRemaining → ∃ s ∈ t.frames.head?, Inside s c
  -- before the answer to the handshake
  fresh : c.state = .handshake ∨ c.stream = .opening → c.streamRemaining = 0 ∧ c.recv <:+ t.wire

theorem look_congr {c c' : Conn σ δ} (h : c'.recv = c.recv) : c'.look env = c.look env := by
  unfold look
  rw [h]

theorem Live.leaves {c c' : Conn σ δ} (h : Live env t c) (hl : Leaves c c')
    (hmode : 0 < c.streamRemaining → c'.msg.mode = c.msg.mode) : Live env t c' := by
  refine ⟨?_, ?_, ?_, ?_⟩
  · rw [hl.recv, hl.remaining, look_congr hl.recv]
    exact h.raw
  · rw [hl.remaining]
    exact h.count
  · rw [hl.remaining]
    intro hpos
    obtain ⟨s, hs, hin⟩ := h.inside hpos
    refine ⟨s, hs, (hmode hpos).trans hin.mode, hl.mask.trans hin.mask, fun hm => ?_,
      hl.maskOff.trans hin.off, hl.recv.trans hin.recv⟩
    exact hl.maskKey.trans (hin.key hm)
  · rw [hl.recv, hl.remaining]
    exact fun hf => h.fresh (hf.imp hl.handshake hl.opening)

theorem Live.beside {c c' : Conn σ δ} (h : Live env t c) (hb : Beside c c') : Live env t c' :=
  h.leaves hb.toLeaves fun _ => by rw [hb.msg]

-- ---- one chunk ----

-- inflate does not fail on the chunk.
def InflateTakes (env : Env σ δ) (c : Conn σ δ) : Prop :=
  c.msg.compressed = true → (inflateChunk env c).1 = 0

variable (env) in
theorem chunkLen_le (c : Conn σ δ) :
    chunkLen env c ≤ c.recv.length ∧ chunkLen env c ≤ c.streamRemaining := by
  unfold chunkLen
  omega

variable (env) in
theorem chunkData_length (c : Conn σ δ) : (chunkData env c).length = chunkLen env c := by
  rw [chunkData, unmask_length, List.length_take]
  have := (chunkLen_le env c).1
  omega

theorem handed_leaves (data : Bytes) (last : Bool) (c : Conn σ δ) :
    Leaves c (handed env data last c) ∧ (handed env data last c).msg.mode = c.msg.mode := by
  unfold handed
  extract_lets c₁ m
  have h₁ : Beside c c₁ := message_beside env .streamConsume data c.isBin last _ c
  have hmode : c₁.msg.mode = c.msg.mode := congrArg MsgState.mode h₁.msg
  split
  · exact ⟨h₁.toLeaves.trans (.msg c₁ _), hmode⟩
  · exact ⟨h₁.toLeaves, hmode⟩

variable (env) in
theorem handChunk_leaves (c : Conn σ δ) : Leaves (unmaskChunk env c) (handChunk env c) ∧
    (handChunk env c).msg.mode = c.msg.mode := by
  unfold handChunk
  dsimp only
  split
  · exact handed_leaves (chunkData env c) _ (unmaskChunk env c)
  · exact ⟨.refl _, rfl⟩

-- The next part of the payload has been presented.
theorem unmasked_chunk {s : Streamed} {c : Conn σ δ} (hs : s.Unmasked) (hin : Inside s c)
    (hcount : s.shown.length + c.streamRemaining = s.hdr.payloadLen) :
    Streamed.Unmasked { s with shown := s.shown ++ chunkData env c } := by
  obtain ⟨hlen, hrem⟩ := chunkLen_le env c
  have hdata := chunkData_length env c
  have harrived := hs.arrived
  have hrecv := congrArg List.length hin.recv
  rw [List.length_drop] at hrecv
  refine ⟨hs.buf, hs.header, ?_, ?_, ?_⟩
  · simp only [List.length_append]
    omega
  · simp only [Streamed.payload, List.length_append] at *
    omega
  · simp only [List.length_append, hdata]
    have hpayload : Streamed.payload { s with shown := s.shown ++ chunkData env c } = s.payload := rfl
    have hsplit : s.payload.take (s.shown.length + chunkLen env c) =
        s.payload.take s.shown.length ++ c.recv.take (chunkLen env c) := by
      rw [List.take_add, hin.recv]
    have hshown := hs.shown
    rw [hpayload, hsplit, chunkData, hin.mask, hin.off]
    cases hm : s.hdr.mask with
    | false =>
        rw [hm] at hshown
        simpa using hshown
    | true =>
        rw [hm] at hshown
        simp only [if_true] at hshown ⊢
        rw [hin.key hm, applyMask, applyMaskOffset_append, List.length_take, Nat.min_eq_left harrived,
          Nat.zero_add]
        rw [applyMask] at hshown
        rw [← hshown]

-- What a function shows continues the tape, and the connection stands behind it.
structure Past (c c' : Conn σ δ) : Prop where
  destroyed : c.destroyed = true → c'.destroyed = true
  opening : c'.stream = .opening → c.stream = .opening
  handshake : c'.state = .handshake → c.state = .handshake

theorem Past.refl (c : Conn σ δ) : Past c c := ⟨id, id, id⟩

theorem Past.trans {a b c : Conn σ δ} (h : Past a b) (h' : Past b c) : Past a c :=
  ⟨h'.destroyed ∘ h.destroyed, h.opening ∘ h'.opening, h.handshake ∘ h'.handshake⟩

theorem Leaves.past {c c' : Conn σ δ} (h : Leaves c c') : Past c c' :=
  ⟨h.destroyed, h.opening, h.handshake⟩

def Abreast (env : Env σ δ) (t : Tape) (c : Conn σ δ) : Prop :=
  t.Sound ∧ (c.destroyed = true ∨ Live env t c)

def Shows (env : Env σ δ) (l : List (Shown σ δ)) (t : Tape) (c c' : Conn σ δ) : Prop :=
  ∃ t', t.reads env l = some t' ∧ Abreast env t' c' ∧ Past c c'

theorem Shows.nil {c c' : Conn σ δ} (h : Abreast env t c') (hp : Past c c') : Shows env [] t c c' :=
  ⟨t, rfl, h, hp⟩

theorem Shows.append {l l' : List (Shown σ δ)} {c c₁ c₂ : Conn σ δ} (h : Shows env l t c c₁)
    (h' : ∀ t₁, Abreast env t₁ c₁ → Shows env l' t₁ c₁ c₂) : Shows env (l ++ l') t c c₂ := by
  obtain ⟨t₁, hread, habreast, hp⟩ := h
  obtain ⟨t₂, hread', habreast', hp'⟩ := h' t₁ habreast
  refine ⟨t₂, ?_, habreast', hp.trans hp'⟩
  rw [Tape.reads, List.foldlM_append]
  rw [Tape.reads] at hread
  rw [hread]
  exact hread'

theorem Shows.after {l : List (Shown σ δ)} {c c₁ c₂ : Conn σ δ} (hp : Past c c₁)
    (h : Shows env l t c₁ c₂) : Shows env l t c c₂ := by
  obtain ⟨t', hread, habreast, hp'⟩ := h
  exact ⟨t', hread, habreast, hp.trans hp'⟩

theorem Abreast.leaves {c c' : Conn σ δ} (h : Abreast env t c) (hl : Leaves c c')
    (hmode : 0 < c.streamRemaining → c'.msg.mode = c.msg.mode) : Abreast env t c' :=
  ⟨h.1, h.2.imp hl.destroyed fun hlive => hlive.leaves hl hmode⟩

theorem Abreast.beside {c c' : Conn σ δ} (h : Abreast env t c) (hb : Beside c c') : Abreast env t c' :=
  h.leaves hb.toLeaves fun _ => by rw [hb.msg]

theorem Shows.then {l : List (Shown σ δ)} {c c₁ c₂ : Conn σ δ} (h : Shows env l t c c₁)
    (hb : Beside c₁ c₂) : Shows env l t c c₂ := by
  obtain ⟨t', hread, habreast, hp⟩ := h
  exact ⟨t', hread, habreast.beside hb, hp.trans hb.past⟩

theorem Live.chunk {c c₁ : Conn σ δ} {s : Streamed} {rest : List Streamed} (h : Live env t c)
    (hframes : t.frames = s :: rest) (hin : Inside s c) (hpos : 0 < c.streamRemaining)
    (hl : Leaves (unmaskChunk env c) c₁) (hmode : c₁.msg.mode = c.msg.mode) :
    Live env { t with frames := { s with shown := s.shown ++ chunkData env c } :: rest }
      (advance (chunkLen env c) c₁) := by
  obtain ⟨hlen, hle⟩ := chunkLen_le env c
  have hdata := chunkData_length env c
  have hcount := h.count s (by rw [hframes]; rfl)
  have hrem : c₁.streamRemaining = c.streamRemaining := hl.remaining
  have hrecv : c₁.recv.drop (chunkLen env c) = c.recv.drop (chunkLen env c) := by
    rw [hl.recv, unmaskChunk, ← hdata, List.drop_left]
  refine ⟨.inl ?_, fun s' hs' => ?_, fun hgo => ⟨_, rfl, hmode.trans hin.mode, hl.mask.trans hin.mask,
    fun hm => hl.maskKey.trans (hin.key hm), ?_, ?_⟩, fun hf => ?_⟩
  · have hraw : c.recv <:+ t.wire := h.raw.resolve_right fun hr => by omega
    rw [advance, hrecv]
    exact (List.drop_suffix _ _).trans hraw
  · cases hs'
    simp only [advance, List.length_append, hdata, hrem]
    omega
  · simp only [advance, List.length_append, hdata, hl.maskOff, unmaskChunk, hin.off]
  · simp only [advance, List.length_append, hdata]
    rw [hrecv, hin.recv, List.drop_drop]
    rfl
  · have hzero := (h.fresh (hf.imp hl.handshake hl.opening)).1
    omega

-- A turn that goes on has presented the next part of the payload. One that does not has been
-- stopped by the callback, if inflate does not fail.
theorem streamTurn_told {c : Conn σ δ} (ht : t.Sound) (h : Live env t c) (hpos : 0 < c.streamRemaining)
    (hok : InflateTakes env c) : Shows env [.chunk c] t c (streamTurn env c).2 ∧
      ((streamTurn env c).1 = true ∨ (streamTurn env c).2.destroyed = true) := by
  obtain ⟨s, hs, hin⟩ := h.inside hpos
  obtain ⟨rest, hframes⟩ : ∃ rest, t.frames = s :: rest := by
    cases hf : t.frames with
    | nil =>
        rw [hf] at hs
        cases hs
    | cons s' rest =>
        rw [hf] at hs
        cases hs
        exact ⟨rest, rfl⟩
  have hcount := h.count s hs
  have hread : t.reads env [.chunk c] =
      some { t with frames := { s with shown := s.shown ++ chunkData env c } :: rest } := by
    simp [Tape.reads, Tape.read, hframes, hin.off]
  have hsound : Tape.Sound { t with frames := { s with shown := s.shown ++ chunkData env c } :: rest } := by
    refine ⟨fun s' hs' => ?_, fun s' hs' => ht.complete s' (by rw [hframes]; exact hs')⟩
    rcases List.mem_cons.mp hs' with rfl | hs'
    · exact unmasked_chunk (ht.unmasked s (by rw [hframes]; exact List.mem_cons_self)) hin hcount
    · exact ht.unmasked s' (by rw [hframes]; exact List.mem_cons_of_mem _ hs')
  have hunmask : ∀ {c₁}, Leaves (unmaskChunk env c) c₁ → Past c c₁ := fun hl =>
    ⟨hl.destroyed, hl.opening, hl.handshake⟩
  have hadvance : ∀ {c₁}, Past c c₁ → Past c (advance (chunkLen env c) c₁) := fun hp =>
    ⟨hp.destroyed, hp.opening, hp.handshake⟩
  have hgoes : ∀ c₁, Leaves (unmaskChunk env c) c₁ → c₁.msg.mode = c.msg.mode →
      Shows env [.chunk c] t c (advance (chunkLen env c) c₁) := fun c₁ hl hmode =>
    ⟨_, hread, ⟨hsound, .inr (h.chunk hframes hin hpos hl hmode)⟩, hadvance (hunmask hl)⟩
  unfold streamTurn
  split
  · rename_i hcomp
    have hb : Beside (unmaskChunk env c) (inflateChunk env c).2 := decompressStreamChunk_beside env _ _ _
    rw [if_neg (by simp [hok hcomp])]
    exact ⟨hgoes _ hb.toLeaves (congrArg MsgState.mode hb.msg), .inl rfl⟩
  · obtain ⟨hl, hmode⟩ := handChunk_leaves env c
    split
    · rename_i hd
      exact ⟨⟨_, hread, ⟨hsound, .inl hd⟩, hunmask hl⟩, .inr hd⟩
    · exact ⟨hgoes _ hl hmode, .inl rfl⟩

variable (env) in
theorem chunksShown_stop {c : Conn σ δ} (fuel : Nat)
    (h : c.recv = [] ∨ c.streamRemaining = 0 ∨ c.destroyed = true) :
    chunksShown env fuel c = [] ∧ (streamChunks env fuel c).2 = c := by
  cases fuel with
  | zero => exact ⟨rfl, rfl⟩
  | succ fuel =>
      rw [chunksShown, streamChunks_succ]
      by_cases hstop : c.recv = [] ∨ c.streamRemaining = 0
      · rw [if_pos hstop, if_pos hstop]
        exact ⟨rfl, rfl⟩
      · have hd : c.destroyed = true := by tauto
        rw [if_neg hstop, if_neg hstop, if_pos hd, if_pos hd]
        exact ⟨rfl, rfl⟩

theorem streamChunks_told (fuel : Nat) {c : Conn σ δ} (h : Abreast env t c)
    (hok : ∀ x, .chunk x ∈ chunksShown env fuel c → InflateTakes env x) :
    Shows env (chunksShown env fuel c) t c (streamChunks env fuel c).2 := by
  induction fuel generalizing c t with
  | zero => exact .nil h (.refl c)
  | succ fuel ih =>
      by_cases hstop : c.recv = [] ∨ c.streamRemaining = 0 ∨ c.destroyed = true
      · obtain ⟨hshown, hsame⟩ := chunksShown_stop env (fuel + 1) hstop
        rw [hshown, hsame]
        exact .nil h (.refl c)
      simp only [not_or] at hstop
      obtain ⟨hne, hrem, hd⟩ := hstop
      have hlive := h.2.resolve_left hd
      have hgoes : ¬(c.recv = [] ∨ c.streamRemaining = 0) := not_or.mpr ⟨hne, hrem⟩
      rw [chunksShown, if_neg hgoes, if_neg hd] at hok ⊢
      rw [streamChunks_succ, if_neg hgoes, if_neg hd]
      obtain ⟨hturn, hend⟩ := streamTurn_told h.1 hlive (Nat.pos_of_ne_zero hrem) (hok c List.mem_cons_self)
      by_cases hgo : (streamTurn env c).1 = true
      · rw [if_pos hgo] at hok ⊢
        rw [if_pos hgo]
        exact hturn.append fun t₁ h₁ => ih h₁ fun x hx => hok x (List.mem_cons_of_mem _ hx)
      · rw [if_neg hgo, if_neg hgo]
        exact hturn

theorem streamConsume_told {c : Conn σ δ} (h : Abreast env t c)
    (hok : ∀ x, .chunk x ∈ consumeShown env c → InflateTakes env x) :
    Shows env (consumeShown env c) t c (streamConsume env c) := by
  have hchunks := streamChunks_told c.recv.length h hok
  unfold streamConsume
  dsimp only
  split
  · exact hchunks
  split
  · rename_i hend
    obtain ⟨t', hread, habreast, hp⟩ := hchunks
    have hl := msgEnd_leaves env c.isBin (streamChunks env c.recv.length c).2
    exact ⟨t', hread, habreast.leaves hl fun hpos => by omega, hp.trans hl.past⟩
  · exact hchunks

-- ---- the frame loop ----

theorem look_large_header {c : Conn σ δ} {hdr : FrameHeader} {size : Nat}
    (h : c.look env = .large hdr size) : parseHeader c.recv = .complete hdr size := by
  unfold look at h
  split at h
  · cases h
  · cases h
  · rename_i hp
    split_ifs at h
    cases h
    exact hp

variable (env) in
theorem joinFrame_leaves (hdr : FrameHeader) (c : Conn σ δ) :
    Leaves c (joinFrame env hdr c).2 ∧
      ((joinFrame env hdr c).1 = true ∧ (joinFrame env hdr c).2.destroyed = true ∨
        (joinFrame env hdr c).1 = false ∧ (joinFrame env hdr c).2.msg.mode = .stream) := by
  refine ⟨((Leaves.emit c _).trans (.emit _ _)).trans (joinStream_leaves env hdr _), ?_⟩
  unfold joinFrame joinStream
  dsimp only
  split
  · split
    · rename_i hd
      exact .inl ⟨rfl, hd⟩
    · exact .inr ⟨rfl, rfl⟩
  · rename_i hmode
    exact .inr ⟨rfl, hmode⟩
  · exact .inr ⟨rfl, rfl⟩

-- The frame is taken up with its cursor at 0.
theorem Abreast.arm {c c₁ : Conn σ δ} {hdr : FrameHeader} {size : Nat} (ht : t.Sound) (h : Live env t c)
    (hrem : c.streamRemaining = 0) (hs : c.state ≠ .handshake) (ho : c.stream ≠ .opening)
    (hlook : c.look env = .large hdr size) (hl : Leaves c c₁) (hmode : c₁.msg.mode = .stream) :
    Abreast env { t with frames := ⟨t.wire, hdr, size, c.recv, [], []⟩ :: t.frames }
      (armStream hdr size c₁) := by
  have hraw : c.recv <:+ t.wire := by
    rcases h.raw with hraw | ⟨-, _, _, hwhole, -⟩
    · exact hraw
    · cases hlook.symm.trans hwhole
  have hcomplete : ∀ s ∈ t.frames, s.Complete := by
    intro s hs
    cases hf : t.frames with
    | nil =>
        rw [hf] at hs
        cases hs
    | cons s' rest =>
        rw [hf] at hs
        rcases List.mem_cons.mp hs with rfl | hs
        · have hcount := h.count s (by rw [hf]; rfl)
          rwa [hrem] at hcount
        · exact ht.complete s (by rw [hf]; exact hs)
  refine ⟨⟨fun s hs => ?_, hcomplete⟩, .inr ⟨.inl ?_, fun s hs => ?_, fun _ => ⟨_, rfl, hmode, rfl,
    fun hm => ?_, rfl, ?_⟩, fun hf => ?_⟩⟩
  · rcases List.mem_cons.mp hs with rfl | hs
    · refine ⟨hraw, look_large_header hlook, Nat.zero_le _, Nat.zero_le _, ?_⟩
      simp [applyMask, applyMaskOffset]
    · exact ht.unmasked s hs
  · rw [armStream, hl.recv]
    exact (List.drop_suffix _ _).trans hraw
  · cases hs
    exact Nat.zero_add _
  · exact if_pos hm
  · rw [armStream, hl.recv]
    simp [Streamed.payload]
  · exact absurd hf (not_or.mpr ⟨fun h => hs (hl.handshake h), fun h => ho (hl.opening h)⟩)

theorem beginStream_told {c : Conn σ δ} {hdr : FrameHeader} {size : Nat} (h : Abreast env t c)
    (hd : c.destroyed = false) (hrem : c.streamRemaining = 0) (hs : c.state ≠ .handshake)
    (ho : c.stream ≠ .opening) (hlook : c.look env = .large hdr size)
    (hok : ∀ x, .chunk x ∈ beginShown env hdr size c → InflateTakes env x) :
    Shows env (beginShown env hdr size c) t c (beginStream env hdr size c).2 := by
  have hlive := h.2.resolve_left (by simp [hd])
  rw [beginStream_eq]
  unfold beginShown at hok ⊢
  split
  · exact .nil h (.refl c)
  rename_i hgo
  rw [if_neg hgo] at hok
  obtain ⟨hl, hend⟩ := joinFrame_leaves env hdr c
  rcases hend with ⟨hstop, hd₁⟩ | ⟨hstop, hmode⟩
  · simp only [hstop, if_true]
    exact .nil ⟨h.1, .inl hd₁⟩ hl.past
  · simp only [hstop, Bool.false_eq_true, if_false] at hok ⊢
    have harm := Abreast.arm h.1 hlive hrem hs ho hlook hl hmode
    have hpast : Past c (armStream hdr size (joinFrame env hdr c).2) :=
      ⟨hl.destroyed, hl.opening, hl.handshake⟩
    have hframe : Shows env [.frame hdr size c.recv] t c (armStream hdr size (joinFrame env hdr c).2) :=
      ⟨_, rfl, harm, hpast⟩
    exact hframe.append fun t₁ h₁ => streamConsume_told h₁ fun x hx =>
      hok x (List.mem_cons_of_mem _ hx)

-- A whole frame is out of the buffer, or it has been refused and stays at the front.
theorem Live.dealt {c : Conn σ δ} {hdr : FrameHeader} {size : Nat} {r : Next × Conn σ δ}
    (h : Live env t c) (hrem : c.streamRemaining = 0) (hs : c.state ≠ .handshake)
    (ho : c.stream ≠ .opening) (hlook : c.look env = .whole hdr size)
    (hr : Dealt hdr size c r ∨ Dealt hdr size (unmaskFrame hdr size c) r) :
    Live env t r.2 ∧ Past c r.2 ∧ r.2.streamRemaining = 0 := by
  obtain ⟨-, hlen, -⟩ := look_whole env hlook
  have hbehind : c.recv.drop (size + hdr.payloadLen) <:+ t.wire := by
    rcases h.raw with hraw | ⟨-, hdr', size', hwhole, hraw⟩
    · exact (List.drop_suffix _ _).trans hraw
    · cases hlook.symm.trans hwhole
      exact hraw
  have hpayload : (framePayload hdr size c).length = hdr.payloadLen := by
    unfold framePayload
    split <;> simp <;> omega
  have hdrop : (unmaskFrame hdr size c).recv.drop (size + hdr.payloadLen) =
      c.recv.drop (size + hdr.payloadLen) := by
    have hfront : (c.recv.take size ++ framePayload hdr size c).length = size + hdr.payloadLen := by
      simp [hpayload]
      omega
    rw [unmaskFrame, ← hfront, List.drop_left]
  have hlook' : (unmaskFrame hdr size c).look env = .whole hdr size := by
    unfold look at hlook ⊢
    split at hlook
    · cases hlook
    · cases hlook
    · rename_i hdr' n hp
      split_ifs at hlook with hbig hshort
      cases hlook
      have htake := parseHeader_take hp
      have hp' : parseHeader (unmaskFrame hdr size c).recv = .complete hdr size := by
        rw [unmaskFrame, List.append_assoc, parseHeader_append _ (by rw [htake]; exact HeaderResult.noConfusion)]
        exact htake
      have hlen' : (unmaskFrame hdr size c).recv.length = c.recv.length := by
        simp only [unmaskFrame, List.length_append, List.length_take, List.length_drop, hpayload]
        omega
      simp only [hp', hlen', hbig, if_false, hshort]
  have hlive : ∀ c₁ c₂ : Conn σ δ, Leaves c₁ c₂ → c₁.streamRemaining = 0 →
      (c₁.recv = c.recv.drop (size + hdr.payloadLen) ∨ c₁.look env = .whole hdr size ∧
        c₁.recv.drop (size + hdr.payloadLen) = c.recv.drop (size + hdr.payloadLen)) →
      c₁.state = c.state → c₁.stream = c.stream → c₁.destroyed = c.destroyed →
        Live env t c₂ ∧ Past c c₂ ∧ c₂.streamRemaining = 0 := by
    intro c₁ c₂ hl hrem₁ hrecv hstate hstream hdes
    refine ⟨Live.leaves ⟨?_, ?_, fun hpos => ?_, fun hf => ?_⟩ hl fun hpos => ?_, ?_, ?_⟩
    · rcases hrecv with hrecv | ⟨hwhole, hrecv⟩
      · exact .inl (hrecv ▸ hbehind)
      · exact .inr ⟨hrem₁, hdr, size, hwhole, hrecv ▸ hbehind⟩
    · rw [hrem₁, ← hrem]
      exact h.count
    · omega
    · rw [hstate, hstream] at hf
      exact absurd hf (not_or.mpr ⟨hs, ho⟩)
    · omega
    · exact ⟨hdes ▸ hl.destroyed, hstream ▸ hl.opening, hstate ▸ hl.handshake⟩
    · exact hl.remaining.trans hrem₁
  unfold Dealt at hr
  rcases hr with hr | hr <;> split at hr
  · exact hlive _ _ hr hrem (.inl rfl) rfl rfl rfl
  · exact hlive _ _ hr hrem (.inr ⟨hlook, rfl⟩) rfl rfl rfl
  · exact hlive _ _ hr hrem (.inl hdrop) rfl rfl rfl
  · exact hlive _ _ hr hrem (.inr ⟨hlook', hdrop⟩) rfl rfl rfl

theorem processFrames_told (fuel : Nat) {c : Conn σ δ} (h : Abreast env t c)
    (hrem : c.destroyed = false → c.streamRemaining = 0) (hs : c.state ≠ .handshake)
    (ho : c.stream ≠ .opening) (hok : ∀ x, .chunk x ∈ framesShown env fuel c → InflateTakes env x) :
    Shows env (framesShown env fuel c) t c (processFrames env fuel c).2 := by
  induction fuel generalizing c t with
  | zero => exact .nil h (.refl c)
  | succ fuel ih =>
      unfold processFrames
      unfold framesShown at hok ⊢
      split
      · exact .nil h (.refl c)
      rename_i hgo
      rw [if_neg hgo] at hok
      split
      · exact .nil h (.refl c)
      rename_i hd
      rw [if_neg hd] at hok
      have hd' : c.destroyed = false := by simpa using hd
      cases hlook : c.look env with
      | more => exact .nil h (.refl c)
      | protocol => exact .nil h (.refl c)
      | large hdr size =>
          rw [hlook] at hok
          have hbegin := beginStream_told h hd' (hrem hd') hs ho hlook hok
          dsimp only
          split
          · rename_i err c₁ heq
            rwa [heq] at hbegin
          · rename_i c₁ heq
            rwa [heq] at hbegin
      | whole hdr size =>
          rw [hlook] at hok
          obtain ⟨hlive, hpast, hrem₁⟩ := (h.2.resolve_left hd).dealt (hrem hd') hs ho hlook
            (wholeFrame_dealt hdr size c)
          dsimp only at hok ⊢
          generalize wholeFrame env hdr size c = r at hlive hpast hrem₁ hok ⊢
          obtain ⟨next, c₁⟩ := r
          cases next with
          | goOn =>
              exact .after hpast (ih ⟨h.1, .inr hlive⟩ (fun _ => hrem₁)
                (fun hh => hs (hpast.handshake hh)) (fun hh => ho (hpast.opening hh)) hok)
          | ret k => exact .nil ⟨h.1, .inr hlive⟩ hpast

theorem streamLoop_told (fuel : Nat) {c : Conn σ δ} (h : Abreast env t c) (hs : c.state ≠ .handshake)
    (ho : c.stream ≠ .opening) (hok : ∀ x, .chunk x ∈ loopShown env fuel c → InflateTakes env x) :
    Shows env (loopShown env fuel c) t c (streamLoop env fuel c).2 := by
  induction fuel generalizing c t with
  | zero => exact .nil h (.refl c)
  | succ fuel ih =>
      rw [streamLoop_turn]
      unfold loopShown at hok ⊢
      split
      · exact .nil h (.refl c)
      rename_i hne
      rw [if_neg hne] at hok
      dsimp only at hok ⊢
      simp only [List.mem_append] at hok
      have hlater : ∀ {c' : Conn σ δ}, Past c c' → c'.state ≠ .handshake ∧ c'.stream ≠ .opening := fun hp =>
        ⟨fun hh => hs (hp.handshake hh), fun hh => ho (hp.opening hh)⟩
      generalize hc₁ : (if c.streamRemaining > 0 then streamConsume env c else c) = c₁ at hok ⊢
      have hconsume : Shows env (if c.streamRemaining > 0 then consumeShown env c else []) t c c₁ := by
        rw [← hc₁]
        split
        · rename_i hpos
          exact streamConsume_told h fun x hx => hok x (.inl (.inl (by rwa [if_pos hpos])))
        · exact .nil h (.refl c)
      obtain ⟨-, -, -, hpast₁⟩ := id hconsume
      have hframes : ∀ t₁, Abreast env t₁ c₁ →
          Shows env (if c₁.streamRemaining = 0 then framesShown env c₁.recv.length c₁ else []) t₁ c₁
            (loopTurn env c).2 := by
        intro t₁ h₁
        unfold loopTurn
        rw [hc₁]
        dsimp only
        split
        · rename_i hrem
          exact processFrames_told _ h₁ (fun _ => hrem) (hlater hpast₁).1 (hlater hpast₁).2 fun x hx =>
            hok x (.inl (.inr (by rwa [if_pos hrem])))
        · exact .nil h₁ (.refl c₁)
      have hturn := hconsume.append hframes
      obtain ⟨-, -, -, hpast₂⟩ := id hturn
      refine hturn.append fun t₂ h₂ => ?_
      split
      · exact .nil h₂ (.refl _)
      rename_i hmoved
      split
      · exact .nil h₂ (.refl _)
      rename_i hzero
      refine ih h₂ (hlater hpast₂).1 (hlater hpast₂).2 fun x hx => hok x (.inr ?_)
      rwa [if_neg hmoved, if_neg hzero]

theorem frameData_told {c : Conn σ δ} (h : Abreast env t c) (hs : c.state ≠ .handshake)
    (ho : c.stream ≠ .opening) (hok : ∀ x, .chunk x ∈ dataShown env c → InflateTakes env x) :
    Shows env (dataShown env c) t c (frameData env c) := by
  have h₁ : Abreast env t (c.emit .frameData) := h.beside (.emit c _)
  have hloop : Shows env (dataShown env c) t c
      (if (c.emit .frameData).msg.mode = .stream
        then streamLoop env ((c.emit .frameData).recv.length + 1) (c.emit .frameData)
        else runFrames env (c.emit .frameData)).2 := by
    unfold dataShown at hok ⊢
    dsimp only at hok ⊢
    split
    · rename_i hmode
      rw [if_pos hmode] at hok
      exact .after (Leaves.emit c _).past (streamLoop_told _ h₁ hs ho hok)
    · rename_i hmode
      rw [if_neg hmode] at hok
      refine .after (Leaves.emit c _).past (processFrames_told _ h₁ (fun hd => ?_) hs ho hok)
      by_contra hrem
      obtain ⟨s, -, hin⟩ := (h₁.2.resolve_left (by simp [hd])).inside (Nat.pos_of_ne_zero hrem)
      exact hmode hin.mode
  unfold frameData
  dsimp only
  split
  · rename_i hmode
    rw [if_pos hmode] at hloop
    split
    · exact hloop.then (fatal_beside _ _)
    · exact hloop
  · rename_i hmode
    rw [if_neg hmode] at hloop
    split
    · exact hloop.then (fatal_beside _ _)
    · exact hloop

-- ---- the handshake ----

theorem registerPing_beside (c : Conn σ δ) : Beside c (c.registerPing env) := by
  unfold registerPing
  split
  · exact .of_fields (.of_fields rfl) rfl
  · exact .refl c

theorem openUp_told (skip : Nat) {c : Conn σ δ} (h : Abreast env t c)
    (hrem : c.destroyed = false → c.streamRemaining = 0 ∧ c.recv <:+ t.wire) (ho : c.stream ≠ .opening)
    (hok : ∀ x, .chunk x ∈ openShown env skip c → InflateTakes env x) :
    Shows env (openShown env skip c) t c (openUp env skip c) := by
  unfold openUp
  extract_lets c₁ c₂ c₃
  have hshown : openShown env skip c =
      if c₂.destroyed then [] else if c₃.recv = [] then [] else framesShown env c₃.recv.length c₃ := rfl
  rw [hshown] at hok ⊢
  have hpast₁ : Past c c₁ := ⟨id, id, nofun⟩
  have h₁ : Abreast env t c₁ := by
    refine ⟨h.1, h.2.elim .inl fun hlive => ?_⟩
    by_cases hd : c.destroyed = true
    · exact .inl hd
    · obtain ⟨hzero, hraw⟩ := hrem (by simpa using hd)
      refine .inr ⟨.inl ((List.drop_suffix _ _).trans hraw), hlive.count, fun hpos => ?_, fun hf => ?_⟩
      · have hpos' : 0 < c.streamRemaining := hpos
        omega
      · exact absurd hf (not_or.mpr ⟨by simp [c₁, setState], ho⟩)
  have hb₂ : Beside c₁ c₂ := (callback_beside env env.onOpen .onOpen c₁).trans (.emit _ _)
  by_cases hd : c₂.destroyed = true
  · rw [if_pos hd, if_pos hd]
    exact .nil (h₁.beside hb₂) (hpast₁.trans hb₂.past)
  rw [if_neg hd] at hok ⊢
  rw [if_neg hd]
  have hb₃ : Beside c₁ c₃ := hb₂.trans (registerPing_beside c₂)
  have h₃ := h₁.beside hb₃
  have hpast₃ := hpast₁.trans hb₃.past
  by_cases hnil : c₃.recv = []
  · rw [if_pos hnil, if_pos hnil]
    exact .nil h₃ hpast₃
  rw [if_neg hnil] at hok ⊢
  rw [if_neg hnil]
  have hd₀ : c.destroyed = false := by
    by_contra hd₀
    have hd₁ : c.destroyed = true := by simpa using hd₀
    exact hd (hb₂.destroyed hd₁)
  have hframes := processFrames_told c₃.recv.length h₃ (fun _ => hb₃.remaining.trans (hrem hd₀).1)
    (fun hh => absurd (hb₃.handshake hh) (by simp [c₁, setState])) (fun hh => ho (hpast₃.opening hh)) hok
  dsimp only
  split
  · exact .after hpast₃ (hframes.then (fatal_beside _ _))
  · exact .after hpast₃ hframes

theorem createDeflate_leaves (p : DeflateParams) (c : Conn σ δ) :
    Leaves c (createDeflate env p c).2 := by
  unfold createDeflate
  dsimp only
  split
  · exact .emit c _
  · exact .of_fields (.of_fields rfl) rfl

theorem serverHandshakeFail_leaves (status : Nat) (c : Conn σ δ) :
    Leaves c (serverHandshakeFail env status c) := by
  unfold serverHandshakeFail
  extract_lets text extra c₁ c₂
  clear_value text extra
  have h₁ : Leaves c c₁ := by
    simp only [c₁]
    split
    · exact .refl c
    · exact (streamWrite_beside _ c).toLeaves
  clear_value c₁
  have h₂ : Leaves c₁ c₂ := ⟨.of_fields rfl, id, id, nofun⟩
  exact (h₁.trans h₂).trans (callback_beside env _ _ c₂).toLeaves

-- recv_buf as it was, or a new connection.
structure Shakes (c c' : Conn σ δ) : Prop where
  destroyed : c.destroyed = true → c'.destroyed = true
  recv : c'.recv = c.recv ∨ c'.recv = []
  remaining : c.streamRemaining = 0 → c'.streamRemaining = 0

theorem Leaves.shakes {c c' : Conn σ δ} (h : Leaves c c') : Shakes c c' :=
  ⟨h.destroyed, .inl h.recv, fun h0 => h.remaining.trans h0⟩

-- The handshake has come as far as OPEN, or it has not.
def Opens (env : Env σ δ) (c : Conn σ δ) (o : Option (Nat × Conn σ δ)) (c' : Conn σ δ) : Prop :=
  match o with
  | none => Shakes c c'
  | some (skip, c₁) => Leaves c c₁ ∧ c' = openUp env skip c₁

theorem Shakes.then {a b c : Conn σ δ} (h : Shakes a b) (hl : Leaves b c) : Shakes a c :=
  ⟨hl.destroyed ∘ h.destroyed, by rw [hl.recv]; exact h.recv, fun h0 => hl.remaining.trans (h.remaining h0)⟩

theorem Shakes.after {a b c : Conn σ δ} (hl : Leaves a b) (h : Shakes b c) : Shakes a c :=
  ⟨h.destroyed ∘ hl.destroyed, by rw [← hl.recv]; exact h.recv, fun h0 => h.remaining (hl.remaining.trans h0)⟩

theorem handshakeDataServer_opens (c : Conn σ δ) :
    Opens env c (serverOpens env c) (handshakeDataServer env c) := by
  unfold serverOpens handshakeDataServer
  generalize parseRequest c.recv = r
  obtain ⟨ret, req⟩ := r
  dsimp only
  by_cases hzero : ret = 0
  · rw [if_pos hzero, if_pos (show ret ≤ 0 ∨ req.status ≠ 0 by omega)]
    exact (Leaves.refl c).shakes
  rw [if_neg hzero]
  by_cases hbad : ret < 0 ∨ req.status ≠ 0
  · rw [if_pos hbad, if_pos (show ret ≤ 0 ∨ req.status ≠ 0 by omega)]
    exact (serverHandshakeFail_leaves _ c).shakes
  rw [if_neg hbad, if_neg (show ¬(ret ≤ 0 ∨ req.status ≠ 0) by omega)]
  unfold serverEstablish
  dsimp only
  generalize hr : (if (env.enableDeflate && req.deflateOffered) = true then _ else (false, c)) = r₁
  have h₁ : Leaves c r₁.2 := by
    rw [← hr]
    split
    · exact createDeflate_leaves _ c
    · exact .refl c
  obtain ⟨confirm, c₁⟩ := r₁
  dsimp only at h₁ ⊢
  cases hresp : buildResponse 512 req.key confirm with
  | none => exact (h₁.trans (fatal_beside _ _).toLeaves).shakes
  | some resp =>
      have h₂ := h₁.trans (@streamWrite_beside σ δ env (.upgradeOut resp) c₁).toLeaves
      dsimp only
      by_cases hrc : (streamWrite env (notify env) (.upgradeOut resp) c₁).1 ≠ 0
      · rw [if_pos hrc, if_pos hrc]
        exact (h₂.trans (fatal_beside _ _).toLeaves).shakes
      · rw [if_neg hrc, if_neg hrc]
        exact ⟨h₂, rfl⟩

theorem redirect_shakes (location : Bytes) (c : Conn σ δ) : Shakes c (redirect env location c) := by
  unfold redirect
  split
  · exact (fatal_beside _ c).toLeaves.shakes
  split
  · exact (fatal_beside _ c).toLeaves.shakes
  · have hnew : ∀ c' : Conn σ δ, c'.destroyed = c.destroyed →
        Shakes c (redirectReconnect env c').2 := fun c' hd => ⟨fun h => hd.trans h, .inr rfl, fun _ => rfl⟩
    dsimp only
    split
    · exact hnew _ rfl
    · refine (hnew _ ?_).then (fatal_beside _ _).toLeaves
      rfl

theorem negotiate_leaves (extensions : Bytes) (c : Conn σ δ) :
    Leaves c (negotiate env extensions c).2 := by
  unfold negotiate
  split
  · split
    · exact (fatal_beside _ c).toLeaves
    split
    · exact (fatal_beside _ c).toLeaves
    · exact createDeflate_leaves _ c
  · exact .refl c

theorem clientEstablish_opens (ret : Nat) (resp : HandshakeResponse) {c c₁ : Conn σ δ} (h : Leaves c c₁) :
    Opens env c (establishOpens env ret resp c₁) (clientEstablish env ret resp c₁) := by
  unfold clientEstablish establishOpens
  dsimp only
  by_cases hext : (!extensionsOk resp.extensions env.enableDeflate) = true
  · rw [if_pos hext, if_pos hext]
    exact (h.trans (fatal_beside _ _).toLeaves).shakes
  rw [if_neg hext, if_neg hext]
  by_cases hneg : (!(negotiate env resp.extensions c₁).1) = true
  · rw [if_pos hneg, if_pos hneg]
    exact (h.trans (negotiate_leaves _ c₁)).shakes
  · rw [if_neg hneg, if_neg hneg]
    exact ⟨h.trans (negotiate_leaves _ c₁), rfl⟩

theorem handshakeDataClient_opens (c : Conn σ δ) :
    Opens env c (clientOpens env c) (handshakeDataClient env c) := by
  unfold clientOpens handshakeDataClient
  generalize parseResponse c.recv = r
  obtain ⟨ret, resp⟩ := r
  dsimp only
  by_cases hzero : ret = 0
  · rw [if_pos hzero, if_pos hzero]
    exact (Leaves.refl c).shakes
  rw [if_neg hzero, if_neg hzero]
  by_cases hneg : ret < 0
  · rw [if_pos hneg, if_pos hneg]
    exact ((callback_beside env _ _ c).trans (fatal_beside _ _)).toLeaves.shakes
  rw [if_neg hneg, if_neg hneg]
  have hresponse : Leaves c (c.emit (.response c.recv)) := .emit c _
  generalize c.emit (.response c.recv) = c₁ at hresponse ⊢
  by_cases hredirect : resp.redirects = true
  · rw [if_pos hredirect, if_pos hredirect]
    exact .after hresponse (redirect_shakes _ c₁)
  rw [if_neg hredirect, if_neg hredirect]
  by_cases hhttp : env.onHttpResponse.isSome = true
  · rw [if_pos hhttp, if_pos hhttp]
    by_cases hrefused : resp.statusCode ≠ 101 ∨ (!verifyAccept c₁.secWsKey resp.accept) = true
    · rw [if_pos hrefused, if_pos hrefused]
      have hcall := hresponse.trans (callback_beside env env.onHttpResponse
        (.onHttpResponse resp.statusCode (c₁.recv.take ret.toNat) (c₁.recv.drop ret.toNat)) c₁).toLeaves
      split
      · exact hcall.shakes
      · exact (hcall.trans (enterClosed_beside _ _ _).toLeaves).shakes
    · rw [if_neg hrefused, if_neg hrefused]
      exact clientEstablish_opens _ resp hresponse
  · rw [if_neg hhttp, if_neg hhttp]
    by_cases hrefused : (!verifyAccept c₁.secWsKey resp.accept) = true
    · rw [if_pos hrefused, if_pos hrefused]
      exact (hresponse.trans (fatal_beside _ _).toLeaves).shakes
    · rw [if_neg hrefused, if_neg hrefused]
      exact clientEstablish_opens _ resp hresponse

-- Before the first frame.
theorem Abreast.opens {c c' : Conn σ δ} {o : Option (Nat × Conn σ δ)} (ht : t.Sound) (h : Live env t c)
    (hrem : c.streamRemaining = 0) (hraw : c.recv <:+ t.wire) (ho : c.stream = .opened)
    (hopens : Opens env c o c')
    (hok : ∀ x, .chunk x ∈ openedShown env o → InflateTakes env x) :
    ∃ t', t.reads env (openedShown env o) = some t' ∧ Abreast env t' c' := by
  cases o with
  | none =>
      have hshakes : Shakes c c' := hopens
      have hzero := hshakes.remaining hrem
      have hraw' : c'.recv <:+ t.wire := by
        rcases hshakes.recv with hrecv | hrecv
        · rw [hrecv]
          exact hraw
        · rw [hrecv]
          exact List.nil_suffix
      refine ⟨t, rfl, ht, .inr ⟨.inl hraw', ?_, fun hpos => by omega, fun _ => ⟨hzero, hraw'⟩⟩⟩
      rw [hzero, ← hrem]
      exact h.count
  | some r =>
      obtain ⟨skip, c₁⟩ := r
      obtain ⟨hl, rfl⟩ := hopens
      have h₁ : Live env t c₁ := h.leaves hl fun hpos => by omega
      have hopening : c₁.stream ≠ .opening := fun hh => by cases (hl.opening hh).symm.trans ho
      obtain ⟨t', hread, habreast, -⟩ := openUp_told skip ⟨ht, .inr h₁⟩
        (fun _ => ⟨hl.remaining.trans hrem, by rw [hl.recv]; exact hraw⟩) hopening hok
      exact ⟨t', hread, habreast⟩

-- ---- pushes ----

theorem look_whole_append {c c' : Conn σ δ} {hdr : FrameHeader} {size : Nat} {d : Bytes}
    (h : c.look env = .whole hdr size) (hrecv : c'.recv = c.recv ++ d) : c'.look env = .whole hdr size := by
  unfold look at h ⊢
  split at h
  · cases h
  · cases h
  · rename_i hdr' n hp
    split_ifs at h with hbig hshort
    cases h
    have hp' : parseHeader c'.recv = .complete hdr size := by
      rw [hrecv, parseHeader_append d (by rw [hp]; exact HeaderResult.noConfusion), hp]
    have hlong : ¬ c'.recv.length < size + hdr.payloadLen := by
      rw [hrecv, List.length_append]
      omega
    simp only [hp', hbig, hlong, if_false]

theorem suffix_push {a w : Bytes} (h : a <:+ w) (d : Bytes) : a ++ d <:+ w ++ d := by
  obtain ⟨front, rfl⟩ := h
  exact ⟨front, (List.append_assoc _ _ _).symm⟩

theorem unmasked_push {s : Streamed} (h : s.Unmasked) (d : Bytes) :
    Streamed.Unmasked { s with pushed := s.pushed ++ d } := by
  have hpayload : Streamed.payload { s with pushed := s.pushed ++ d } = s.payload ++ d := by
    simp [Streamed.payload]
  have harrived := h.arrived
  refine ⟨h.buf, h.header, h.le, ?_, ?_⟩
  · rw [hpayload, List.length_append]
    exact harrived.trans (Nat.le_add_right _ _)
  · rw [hpayload, List.take_append_of_le_length harrived]
    exact h.shown

-- More of the wire is in recv_buf.
theorem Abreast.push {c : Conn σ δ} (ht : t.Sound) (h : Live env t c) (d : Bytes) :
    ∃ t', t.read env (.push d) = some t' ∧ t'.Sound ∧ t'.wire = t.wire ++ d ∧
      Live env t' { c with recv := c.recv ++ d } := by
  refine ⟨_, rfl, ?_, rfl, ?_, ?_, fun hpos => ?_, fun hf => ?_⟩
  · cases hf : t.frames with
    | nil => exact ⟨nofun, nofun⟩
    | cons s rest =>
        refine ⟨fun s' hs' => ?_, fun s' hs' => ht.complete s' (by rw [hf]; exact hs')⟩
        rcases List.mem_cons.mp hs' with rfl | hs'
        · exact unmasked_push (ht.unmasked s (by rw [hf]; exact List.mem_cons_self)) d
        · exact ht.unmasked s' (by rw [hf]; exact List.mem_cons_of_mem _ hs')
  · rcases h.raw with hraw | ⟨hrem, hdr, size, hwhole, hraw⟩
    · exact .inl (suffix_push hraw d)
    · obtain ⟨-, hlen, -⟩ := look_whole env hwhole
      refine .inr ⟨hrem, hdr, size, look_whole_append hwhole rfl, ?_⟩
      rw [List.drop_append_of_le_length hlen]
      exact suffix_push hraw d
  · intro s hs
    cases hf : t.frames with
    | nil =>
        rw [hf] at hs
        cases hs
    | cons s' rest =>
        rw [hf] at hs
        cases hs
        exact h.count s' (by rw [hf]; rfl)
  · obtain ⟨s, hs, hin⟩ := h.inside hpos
    cases hf : t.frames with
    | nil =>
        rw [hf] at hs
        cases hs
    | cons s' rest =>
        rw [hf] at hs
        cases hs
        have harrived := (ht.unmasked s (by rw [hf]; exact List.mem_cons_self)).arrived
        refine ⟨_, rfl, hin.mode, hin.mask, hin.key, hin.off, ?_⟩
        have hpayload : Streamed.payload { s with pushed := s.pushed ++ d } = s.payload ++ d := by
          simp [Streamed.payload]
        rw [hpayload, List.drop_append_of_le_length harrived, ← hin.recv]
  · obtain ⟨hrem, hraw⟩ := h.fresh hf
    exact ⟨hrem, suffix_push hraw d⟩

theorem onData_told (d : Bytes) {c : Conn σ δ} (h : Abreast env t c) (ho : c.stream = .opened)
    (hok : ∀ x, .chunk x ∈ onDataShown env d c → InflateTakes env x) :
    ∃ t', t.reads env (onDataShown env d c) = some t' ∧ Abreast env t' (onData env d c) := by
  unfold onData
  unfold onDataShown at hok ⊢
  split
  · exact ⟨t, rfl, h⟩
  rename_i hg
  rw [if_neg hg] at hok
  split
  · exact ⟨t, rfl, h.beside (fatal_beside _ c)⟩
  rename_i hfit
  rw [if_neg hfit] at hok
  have hd : ¬ c.destroyed = true := fun hd => hg (by simp [gone, hd])
  have hlive := h.2.resolve_left hd
  obtain ⟨t₁, hpush, hsound, hwire, h₁⟩ := Abreast.push h.1 hlive d
  dsimp only at hok ⊢
  have hrest : ∀ {l : List (Shown σ δ)} {c' : Conn σ δ},
      (∃ t', t₁.reads env l = some t' ∧ Abreast env t' c') →
        ∃ t', t.reads env (.push d :: l) = some t' ∧ Abreast env t' c' := by
    intro l c' hread
    obtain ⟨t', hread, habreast⟩ := hread
    refine ⟨t', ?_, habreast⟩
    rw [Tape.reads, List.foldlM_cons, hpush]
    exact hread
  by_cases hs : c.state = .handshake
  · rw [if_pos hs] at hok ⊢
    rw [if_pos hs]
    refine hrest ?_
    obtain ⟨hrem, hraw⟩ := h₁.fresh (.inl hs)
    refine Abreast.opens hsound h₁ hrem hraw ho ?_ fun x hx => hok x (List.mem_cons_of_mem _ hx)
    unfold handshakeData
    split
    · exact handshakeDataClient_opens _
    · exact handshakeDataServer_opens _
  · rw [if_neg hs] at hok ⊢
    rw [if_neg hs]
    refine hrest ?_
    obtain ⟨t', hread, habreast, -⟩ := frameData_told ⟨hsound, .inr h₁⟩ hs (by simp [ho]) fun x hx =>
      hok x (List.mem_cons_of_mem _ hx)
    exact ⟨t', hread, habreast⟩

theorem onStreamOpen_abreast {c : Conn σ δ} (h : Abreast env t c) (ho : c.stream = .opening) :
    Abreast env t (onStreamOpen env { c with stream := .opened }) := by
  have hnew : ∀ c' : Conn σ δ, c'.destroyed = c.destroyed → c'.streamRemaining = c.streamRemaining →
      c'.recv = c.recv → Abreast env t c' := by
    intro c' hd hrem hrecv
    refine ⟨h.1, h.2.imp (fun hd' => hd.trans hd') fun hlive => ?_⟩
    obtain ⟨hzero, hraw⟩ := hlive.fresh (.inr ho)
    refine ⟨.inl (hrecv ▸ hraw), ?_, fun hpos => by omega, fun _ => ⟨hrem.trans hzero, hrecv ▸ hraw⟩⟩
    rw [hrem]
    exact hlive.count
  unfold onStreamOpen
  split
  · exact hnew _ rfl rfl rfl
  · dsimp only
    split
    · refine Abreast.beside (hnew _ ?_ ?_ ?_) (fatal_beside _ _) <;> rfl
    · rename_i req _
      have hopen : Abreast env t (({ c with stream := .opened, secWsKey := genKey (env.random c.log) } :
        Conn σ δ).setState .handshake) := hnew _ rfl rfl rfl
      have hwrite := hopen.beside
        (@streamWrite_beside σ δ env (.requestOut (genKey (env.random c.log)) req) _)
      split
      · exact hwrite.beside (fatal_beside _ _)
      · exact hwrite

theorem step_told (i : Input) {c : Conn σ δ} (h : Abreast env t c)
    (hok : ∀ x, .chunk x ∈ stepShown env c i → InflateTakes env x) :
    ∃ t', t.reads env (stepShown env c i) = some t' ∧ Abreast env t' (step env c i) := by
  have hidle : Beside c { c with stream := .idle } := ⟨⟨.of_fields rfl, id, nofun, id⟩, rfl⟩
  cases i with
  | streamOpened =>
      refine ⟨t, rfl, ?_⟩
      simp only [step]
      split
      · exact onStreamOpen_abreast h ‹_›
      · exact h
  | data d =>
      simp only [step, stepShown] at hok ⊢
      split
      · rename_i ho
        rw [if_pos ho] at hok
        exact onData_told d h ho hok
      · exact ⟨t, rfl, h⟩
  | streamClosed =>
      refine ⟨t, rfl, ?_⟩
      simp only [step]
      split
      · exact h.beside (hidle.trans (Moves.beside (onStreamClose_moves (notify_moves env) _)))
      · exact h
  | streamFailed err =>
      refine ⟨t, rfl, ?_⟩
      simp only [step]
      split
      · exact h.beside (hidle.trans (Moves.beside (onStreamError_moves (notify_moves env) err _)))
      · exact h
  | pingTick =>
      refine ⟨t, rfl, ?_⟩
      simp only [step, onPingTimer]
      split
      · split
        · exact h
        · exact h.beside (sendFrame_beside _ _ c)
      · exact h
  | call a => exact ⟨t, rfl, h.beside (Moves.beside (call_moves (notify_moves env) a c))⟩

theorem run_told (inputs : List Input) {c : Conn σ δ} (h : Abreast env t c)
    (hok : ∀ x, .chunk x ∈ runShown env c inputs → InflateTakes env x) :
    ∃ t', t.reads env (runShown env c inputs) = some t' ∧ Abreast env t' (run env c inputs) := by
  induction inputs generalizing c t with
  | nil => exact ⟨t, rfl, h⟩
  | cons i rest ih =>
      rw [runShown] at hok ⊢
      simp only [List.mem_append] at hok
      obtain ⟨t₁, hread, h₁⟩ := step_told i h fun x hx => hok x (.inl hx)
      obtain ⟨t₂, hread', h₂⟩ := ih h₁ fun x hx => hok x (.inr hx)
      refine ⟨t₂, ?_, h₂⟩
      rw [Tape.reads] at hread hread' ⊢
      rw [List.foldlM_append, hread]
      exact hread'

def Tape.blank : Tape := ⟨[], []⟩

theorem Begins.told {c : Conn σ δ} {l : List (Shown σ δ)} (h : Begins env c l)
    (hok : ∀ x, .chunk x ∈ l → InflateTakes env x) :
    ∃ t, Tape.blank.reads env l = some t ∧ Abreast env t c := by
  have hblank : Tape.blank.Sound := ⟨nofun, nofun⟩
  cases h with
  | start host port path seed =>
      refine ⟨_, rfl, hblank, .inr ⟨.inl List.nil_suffix, nofun, nofun, fun _ => ⟨rfl, List.nil_suffix⟩⟩⟩
  | upgrade recv seed hserver =>
      have hnew : Live env Tape.blank
          ({ Conn.start (σ := σ) (δ := δ) [] 0 [] seed with stream := .opened } : Conn σ δ) :=
        ⟨.inl List.nil_suffix, nofun, nofun, fun _ => ⟨rfl, List.nil_suffix⟩⟩
      obtain ⟨t₁, hpush, hsound, hwire, h₁⟩ := Abreast.push hblank hnew recv
      have hshown : handshakeShown env { Conn.start [] 0 [] seed with stream := .opened, recv := recv } =
          openedShown env
            (serverOpens env { Conn.start [] 0 [] seed with stream := .opened, recv := recv }) := by
        rw [handshakeShown, if_neg (by simp [hserver])]
      rw [hshown] at hok ⊢
      have hraw : recv <:+ t₁.wire := by
        rw [hwire]
        exact List.suffix_append _ _
      obtain ⟨t', hread, habreast⟩ := Abreast.opens hsound h₁ rfl hraw rfl (handshakeDataServer_opens _)
        fun x hx => hok x (List.mem_cons_of_mem _ hx)
      refine ⟨t', ?_, habreast⟩
      rw [Tape.reads, List.foldlM_cons, hpush]
      exact hread

end Conn

namespace Shown

def presented (env : Env σ δ) : Shown σ δ → Option Bytes
  | .chunk c => some (c.chunkData env)
  | _ => none

def Taken (env : Env σ δ) : Shown σ δ → Prop
  | .chunk c => c.InflateTakes env
  | _ => True

instance decidableTaken (env : Env σ δ) : DecidablePred (Taken env)
  | .chunk c => inferInstanceAs (Decidable (c.msg.compressed = true → (c.inflateChunk env).1 = 0))
  | .push _ => .isTrue trivial
  | .frame _ _ _ => .isTrue trivial

end Shown

open Conn

-- In a run in which inflate fails on no chunk, every chunk belongs to a frame and starts at the
-- frame's next byte. What has been presented of a frame is the part of its payload that has come,
-- unmasked from offset 0 on, and the whole payload when the next frame is taken up.
theorem streamed_unmasked (env : Env σ δ) {c : Conn σ δ} {l : List (Shown σ δ)} (h : Begins env c l)
    (inputs : List Input) (hok : ∀ s ∈ l ++ runShown env c inputs, s.Taken env) :
    ∃ t, Tape.blank.reads env (l ++ runShown env c inputs) = some t ∧
      (∀ s ∈ t.frames, s.Unmasked) ∧ (∀ s ∈ t.frames.tail, s.Complete) ∧
      (∀ s ∈ t.frames, s.hdr.mask = true → s.Complete →
        s.shown = applyMask s.hdr.maskKey (s.payload.take s.hdr.payloadLen)) ∧
      ((run env c inputs).destroyed = false → ∀ s ∈ t.frames.head?,
        s.shown.length + (run env c inputs).streamRemaining = s.hdr.payloadLen) := by
  have hchunk : ∀ x, .chunk x ∈ l ++ runShown env c inputs → InflateTakes env x := fun x hx => hok _ hx
  obtain ⟨t₁, hread, h₁⟩ := h.told fun x hx => hchunk x (List.mem_append_left _ hx)
  obtain ⟨t₂, hread', hsound, hlive⟩ := run_told inputs h₁ fun x hx =>
    hchunk x (List.mem_append_right _ hx)
  refine ⟨t₂, ?_, hsound.unmasked, hsound.complete, fun s hs hmask hend => ?_, fun hd => ?_⟩
  · rw [Tape.reads] at hread hread' ⊢
    rw [List.foldlM_append, hread]
    exact hread'
  · have hshown := (hsound.unmasked s hs).shown
    rw [if_pos hmask] at hshown
    rwa [← hend]
  · exact (hlive.resolve_left (by simp [hd])).count

-- A masked frame of 600 bytes in three pieces that are no multiples of four.
def streamedInputs : List Input :=
  [.streamOpened, .data packedRequest, .data ([0x82, 0xFE, 0x02, 0x58, 1, 2, 3, 4, 0x40]),
    .data (List.replicate 6 0x41), .data (List.replicate 300 0x42)]

theorem streamed_unmasked_pieces :
    ∃ t, Tape.blank.reads packedServer ([] ++ runShown packedServer (start [] 0 [] 1) streamedInputs) = some t ∧
      (∀ s ∈ t.frames, s.Unmasked) ∧ (∀ s ∈ t.frames.tail, s.Complete) ∧
      (∀ s ∈ t.frames, s.hdr.mask = true → s.Complete →
        s.shown = applyMask s.hdr.maskKey (s.payload.take s.hdr.payloadLen)) ∧
      ((run packedServer (start [] 0 [] 1) streamedInputs).destroyed = false → ∀ s ∈ t.frames.head?,
        s.shown.length + (run packedServer (start [] 0 [] 1) streamedInputs).streamRemaining =
          s.hdr.payloadLen) :=
  streamed_unmasked packedServer (.start [] 0 [] 1) streamedInputs (by decide +kernel)

-- A compressed message whose first block is of the reserved type: inflate fails on the first three
-- bytes, these stay in recv_buf as they have been unmasked, and the next push unmasks them again.
def refusedInputs : List Input :=
  [.streamOpened, .data packedRequest, .data [0xC2, 0xFE, 0x02, 0x58, 1, 2, 3, 4, 0x06, 0xA8, 0xB8],
    .data [0x55]]

theorem refused_chunk_unmasked_twice :
    (runShown packedServer (start [] 0 [] 1) refusedInputs).filterMap (Shown.presented packedServer) =
        [[0x07, 0xAA, 0xBB], [0x06, 0xA8, 0xB8, 0x51]] ∧
      ¬ ∃ t, Tape.blank.reads packedServer ([] ++ runShown packedServer (start [] 0 [] 1) refusedInputs) =
          some t ∧ ∀ s ∈ t.frames, s.Unmasked := by
  have hnone : (Tape.blank.reads packedServer
      ([] ++ runShown packedServer (start [] 0 [] 1) refusedInputs)).isNone = true := by decide +kernel
  refine ⟨by decide +kernel, fun hsome => ?_⟩
  obtain ⟨t, ht, -⟩ := hsome
  rw [ht] at hnone
  cases hnone

end Sevent.Ws
