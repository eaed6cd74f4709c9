import Sevent.Ws.Codec
import Sevent.Ws.Steps

-- Which frames are protocol errors, by whatever route they are read.
namespace Sevent.Ws

variable {σ δ : Type}

-- ---- the header of a frame in a buffer ----

-- A 64-bit length with its top bit set.
def TopBit (b : Bytes) : Prop :=
  10 ≤ b.length ∧ (b.getD 1 0 &&& 0x7F).toNat = 127 ∧ b.getD 2 0 &&& 0x80 ≠ 0

theorem parseHeader_error {b : Bytes} : parseHeader b = .error ↔ TopBit b := by
  unfold parseHeader TopBit
  by_cases h2 : b.length < 2
  · rw [if_pos h2]
    exact ⟨nofun, fun h => by omega⟩
  rw [if_neg h2]
  dsimp only
  generalize b.getD 1 0 = b1
  constructor
  · intro h
    split at h
    · cases h
    rename_i hoff
    split at h
    · rename_i htop
      rw [htop.1] at hoff
      exact ⟨by simpa [extendedLen] using hoff, htop⟩
    · split at h <;> cases h
  · rintro ⟨hlen, htop⟩
    have h8 : extendedLen (b1 &&& 0x7F).toNat = 8 := by
      rw [htop.1]
      rfl
    rw [if_neg (by omega), if_pos htop]

-- What the header of a frame can say.
theorem parseHeader_fields {b : Bytes} {hdr : FrameHeader} {n : Nat}
    (h : parseHeader b = .complete hdr n) : hdr.opcode < 16 ∧ hdr.payloadLen ≤ sizeMax - n := by
  have hsize := parseHeader_complete h
  have hop := parseHeader_opcode h
  unfold parseHeader at h
  split at h
  · cases h
  dsimp only at h
  have hlow : (b.getD 1 0 &&& 0x7F).toNat < 128 := by
    rw [UInt8.toNat_and]
    exact Nat.lt_of_le_of_lt Nat.and_le_right (by decide)
  generalize (b.getD 1 0 &&& 0x7F).toNat = len7 at h hlow
  generalize (b.getD 1 0 &&& 0x80 != 0) = mask at h
  split at h
  · cases h
  rename_i hoff
  split at h
  · cases h
  rename_i htop
  split at h
  · cases h
  cases h
  refine ⟨hop, ?_⟩
  dsimp only at hsize ⊢
  split
  · unfold sizeMax
    omega
  rename_i h126
  have hmax : bigEndian ((b.drop 2).take (extendedLen len7)) < 128 * 256 ^ 7 := by
    by_cases h127 : len7 = 127
    · have hlow : b.getD 2 0 &&& 0x80 = 0 := by
        by_contra hne
        exact htop ⟨h127, hne⟩
      have h8 : extendedLen len7 = 8 := by rw [h127]; rfl
      rw [h8] at hoff ⊢
      cases hb : b.drop 2 with
      | nil =>
          have := congrArg List.length hb
          rw [List.length_drop, List.length_nil] at this
          omega
      | cons x rest =>
          have hx : b.getD 2 0 = x := by
            rw [List.getD_eq_getElem?_getD, ← Nat.add_zero 2, ← List.getElem?_drop, hb]
            rfl
          have hx := toNat_lt_of_low x (hx ▸ hlow)
          have hrest := bigEndian_lt (rest.take 7)
          have hlen : (rest.take 7).length = 7 := by
            have := congrArg List.length hb
            rw [List.length_drop, List.length_cons] at this
            rw [List.length_take]
            omega
          rw [hlen] at hrest
          rw [List.take_succ_cons, bigEndian_cons, hlen]
          omega
    · have h2 : extendedLen len7 = 2 := by
        have : len7 = 126 := by omega
        rw [this]; rfl
      have hlt := bigEndian_lt ((b.drop 2).take (extendedLen len7))
      have hlen : ((b.drop 2).take (extendedLen len7)).length ≤ 2 := by
        rw [List.length_take]
        omega
      have hpow : 256 ^ ((b.drop 2).take (extendedLen len7)).length ≤ 256 ^ 2 :=
        Nat.pow_le_pow_right (by decide) hlen
      omega
  unfold sizeMax
  omega

namespace Conn

variable (env : Env σ δ)

-- ---- one turn of process_frames ----

def firstFrame (c : Conn σ δ) : Next × Conn σ δ :=
  match c.look env with
  | .more => (.ret 0, c)
  | .protocol => (.ret Err.wsProtocol, c)
  | .large hdr size =>
      match beginStream env hdr size c with
      | (some err, c) => (.ret err, c)
      | (none, c) => (.ret 0, c)
  | .whole hdr size => wholeFrame env hdr size c

theorem processFrames_first (fuel : Nat) {c : Conn σ δ} (hr : c.recv ≠ []) (ho : c.state ≠ .closed)
    (hd : c.destroyed = false) :
    processFrames env (fuel + 1) c =
      match firstFrame env c with
      | (.goOn, c) => processFrames env fuel c
      | (.ret r, c) => (r, c) := by
  rw [processFrames, if_neg (by simp [hr, ho]), if_neg (by simp [hd]), firstFrame]
  cases c.look env with
  | more => rfl
  | protocol => rfl
  | large hdr size =>
      dsimp only
      rcases beginStream env hdr size c with ⟨_ | err, c'⟩ <;> rfl
  | whole hdr size => rfl

-- process_frames reports SEVENT_WS_ERR_PROTOCOL for the frame at the head of the buffer.
def Refuses (c : Conn σ δ) : Prop := (firstFrame env c).1 = .ret Err.wsProtocol

instance decidableRefuses (c : Conn σ δ) : Decidable (Refuses env c) :=
  inferInstanceAs (Decidable (_ = _))

variable {env}

-- ---- what is refused ----

-- What makes a frame a protocol error; `code` is what the first two bytes of its payload say.
def Violates (isClient deflate : Bool) (mode : MsgMode) (hdr : FrameHeader) (code : Nat) : Prop :=
  hdr.mask = isClient ∨ hdr.rsv2 = true ∨ hdr.rsv3 = true ∨
  hdr.rsv1 = true ∧ (deflate = false ∨ 8 ≤ hdr.opcode ∨ hdr.opcode = Opcode.cont) ∨
  3 ≤ hdr.opcode ∧ hdr.opcode ≤ 7 ∨ 11 ≤ hdr.opcode ∨
  8 ≤ hdr.opcode ∧ (hdr.payloadLen > 125 ∨ hdr.fin = false) ∨
  (hdr.opcode = Opcode.text ∨ hdr.opcode = Opcode.binary) ∧ mode ≠ .none ∨
  hdr.opcode = Opcode.cont ∧ mode = .none ∨
  hdr.opcode = Opcode.close ∧
    (hdr.payloadLen = 1 ∨ 2 ≤ hdr.payloadLen ∧ closeCodeValid code = false)

instance decidableViolates (isClient deflate : Bool) (mode : MsgMode) (hdr : FrameHeader)
    (code : Nat) : Decidable (Violates isClient deflate mode hdr code) := by
  unfold Violates
  infer_instance

-- The frames that are complete in the buffer and pass for legal: a reserved opcode with RSV1 and
-- FIN, which is taken for a compressed message, and a CLOSE with half a code.
def Slips (isClient deflate : Bool) (mode : MsgMode) (hdr : FrameHeader) : Prop :=
  hdr.mask ≠ isClient ∧ hdr.rsv2 = false ∧ hdr.rsv3 = false ∧ hdr.fin = true ∧
  (3 ≤ hdr.opcode ∧ hdr.opcode ≤ 7 ∧ hdr.rsv1 = true ∧ deflate = true ∧ mode = .none ∨
    hdr.opcode = Opcode.close ∧ hdr.rsv1 = false ∧ hdr.payloadLen = 1)

theorem Slips.violates {isClient deflate : Bool} {mode : MsgMode} {hdr : FrameHeader} (code : Nat)
    (h : Slips isClient deflate mode hdr) : Violates isClient deflate mode hdr code := by
  rcases h with ⟨-, -, -, -, ⟨hlow, hhigh, -⟩ | ⟨hop, -, hlen⟩⟩
  · exact .inr (.inr (.inr (.inr (.inl ⟨hlow, hhigh⟩))))
  · exact .inr (.inr (.inr (.inr (.inr (.inr (.inr (.inr (.inr ⟨hop, .inl hlen⟩))))))))

theorem isControl_iff {opcode : Nat} (h : opcode < 16) : Opcode.isControl opcode = true ↔ 8 ≤ opcode := by
  have hall : ∀ n : Fin 16, Opcode.isControl n = true ↔ 8 ≤ n.val := by decide
  exact hall ⟨opcode, h⟩

theorem handleSingle_rc (hdr : FrameHeader) (payload : Bytes) (c : Conn σ δ) :
    (handleSingle env hdr payload c).1 = -1 ∨ (handleSingle env hdr payload c).1 = 0 := by
  unfold handleSingle
  split
  · exact .inl rfl
  split
  · dsimp only
    split
    · exact .inl rfl
    · exact .inr rfl
  · exact .inr rfl

-- A handler reports a protocol error for the order of frames only.
theorem handleTextBinary_rc (hdr : FrameHeader) (payload : Bytes) (c : Conn σ δ) :
    (handleTextBinary env hdr payload c).1 = Err.wsProtocol ↔ c.msg.mode ≠ .none := by
  unfold handleTextBinary
  split
  · rename_i hmode
    exact ⟨fun _ => hmode, fun _ => rfl⟩
  rename_i hmode
  refine ⟨fun h => absurd h ?_, fun h => absurd h hmode⟩
  extract_lets c₁ _ c₂
  split
  · rcases handleSingle_rc hdr payload c₁ with h | h <;> rw [h] <;> decide
  dsimp only
  split
  · simp [Err.nomem, Err.wsProtocol]
  · split <;> simp [Err.wsProtocol]

theorem handleCont_rc (hdr : FrameHeader) (payload : Bytes) (c : Conn σ δ) :
    (handleCont env hdr payload c).1 = Err.wsProtocol ↔ c.msg.mode = .none := by
  unfold handleCont
  split
  · rename_i hmode
    exact ⟨fun _ => hmode, fun _ => rfl⟩
  rename_i hmode
  refine ⟨fun h => absurd h ?_, fun h => absurd h hmode⟩
  dsimp only
  split
  · simp [Err.nomem, Err.wsProtocol]
  · split <;> simp [Err.wsProtocol]

theorem handlePing_rc (payload : Bytes) (c : Conn σ δ) :
    (handlePing env payload c).1 ≠ Err.wsProtocol := by
  unfold handlePing
  dsimp only
  split <;> simp [Err.wsWrite, Err.wsProtocol]

theorem handlePong_rc (payload : Bytes) (c : Conn σ δ) :
    (handlePong env payload c).1 ≠ Err.wsProtocol := by
  unfold handlePong
  dsimp only
  split <;> simp [Err.wsProtocol]

theorem handleClose_rc (payload : Bytes) (c : Conn σ δ) :
    (handleClose env payload c).1 = Err.wsProtocol ↔
      2 ≤ payload.length ∧ closeCodeValid (bigEndian (payload.take 2)) = false := by
  unfold handleClose
  split
  · rename_i hlen
    dsimp only
    cases hv : closeCodeValid (bigEndian (payload.take 2)) with
    | false => simp [hlen]
    | true =>
        simp only [Bool.not_true, Bool.false_eq_true, if_false]
        split <;> simp [Err.wsProtocol]
  · rename_i hlen
    simp [Err.wsProtocol, hlen]

-- ---- the two routes ----

-- The payload of the frame can be inflated, if it comes to that.
def Decodes (env : Env σ δ) (hdr : FrameHeader) (size : Nat) (c : Conn σ δ) : Prop :=
  (decompressOneshot env (framePayload hdr size c) (hdr.opcode == Opcode.binary)
    ((unmaskFrame hdr size c).emit (.dataFrame hdr.opcode hdr.payloadLen hdr.fin true))).1 ≠
      Err.wsProtocol

theorem oneshotFrame_refuses {hdr : FrameHeader} {size : Nat} {c : Conn σ δ}
    (hdec : Decodes env hdr size c) :
    (oneshotFrame env hdr size (framePayload hdr size c) (unmaskFrame hdr size c)).1 =
        .ret Err.wsProtocol ↔ c.msg.mode ≠ .none := by
  have hmode : (unmaskFrame hdr size c).msg.mode = c.msg.mode := rfl
  unfold oneshotFrame
  rw [hmode]
  split
  · rename_i hne
    exact ⟨fun _ => hne, fun _ => rfl⟩
  rename_i hnone
  refine ⟨fun h => absurd h ?_, fun h => absurd h hnone⟩
  dsimp only
  split
  · simpa [Decodes] using hdec
  · split <;> simp [Err.wsProtocol]

theorem ret_of_handler {hdr : FrameHeader} {size : Nat} (r : Int × Conn σ δ) :
    (if r.1 < 0 then (Next.ret (-1), r.2) else if r.1 > 0 then (.ret r.1, r.2)
      else (.goOn, consumeFrame hdr size r.2)).1 = .ret Err.wsProtocol ↔ r.1 = Err.wsProtocol := by
  split
  · rename_i hneg
    refine ⟨fun h => ?_, fun h => ?_⟩
    · simp [Err.wsProtocol] at h
    · simp [h, Err.wsProtocol] at hneg
  split
  · simp
  · rename_i hpos
    simp only [reduceCtorEq, false_iff]
    intro h
    simp [h, Err.wsProtocol] at hpos

-- A frame that is not inflated at once.
theorem plainFrame_refuses (hdr : FrameHeader) (hop : hdr.opcode < 16) (size : Nat) (payload : Bytes)
    (hlen : payload.length = hdr.payloadLen) (c : Conn σ δ) :
    (plainFrame env hdr size payload c).1 = .ret Err.wsProtocol ↔
      8 ≤ hdr.opcode ∧ (hdr.payloadLen > 125 ∨ hdr.fin = false) ∨
      3 ≤ hdr.opcode ∧ hdr.opcode ≤ 7 ∨ 11 ≤ hdr.opcode ∨
      (hdr.opcode = Opcode.text ∨ hdr.opcode = Opcode.binary) ∧ c.msg.mode ≠ .none ∨
      hdr.opcode = Opcode.cont ∧ c.msg.mode = .none ∨
      hdr.opcode = Opcode.close ∧ 2 ≤ hdr.payloadLen ∧
        closeCodeValid (bigEndian (payload.take 2)) = false := by
  unfold plainFrame
  simp only [isControl_iff hop]
  by_cases hlong : 8 ≤ hdr.opcode ∧ hdr.payloadLen > 125
  · rw [if_pos hlong]
    exact ⟨fun _ => .inl ⟨hlong.1, .inl hlong.2⟩, fun _ => rfl⟩
  rw [if_neg hlong]
  by_cases hpart : 8 ≤ hdr.opcode ∧ (!hdr.fin) = true
  · rw [if_pos hpart]
    exact ⟨fun _ => .inl ⟨hpart.1, .inr (by simpa using hpart.2)⟩, fun _ => rfl⟩
  rw [if_neg hpart]
  have hctl : ¬ (8 ≤ hdr.opcode ∧ (hdr.payloadLen > 125 ∨ hdr.fin = false)) := by
    rintro ⟨h8, h | h⟩
    · exact hlong ⟨h8, h⟩
    · exact hpart ⟨h8, by simp [h]⟩
  rw [or_iff_right hctl]
  by_cases hclose : hdr.opcode = Opcode.close
  · rw [if_pos hclose]
    simp only [Next.ret.injEq, handleClose_rc, hlen, hclose]
    simp [Opcode.close, Opcode.text, Opcode.binary, Opcode.cont]
  rw [if_neg hclose]
  unfold dispatch
  by_cases htext : hdr.opcode = Opcode.text ∨ hdr.opcode = Opcode.binary
  · rw [if_pos htext]
    dsimp only
    rw [ret_of_handler, handleTextBinary_rc]
    rcases htext with h | h <;> simp [h, Opcode.close, Opcode.text, Opcode.binary, Opcode.cont]
  rw [if_neg htext]
  by_cases hcont : hdr.opcode = Opcode.cont
  · rw [if_pos hcont]
    dsimp only
    rw [ret_of_handler, handleCont_rc]
    simp [hcont, Opcode.close, Opcode.text, Opcode.binary, Opcode.cont]
  rw [if_neg hcont]
  by_cases hping : hdr.opcode = Opcode.ping
  · rw [if_pos hping]
    dsimp only
    rw [ret_of_handler]
    simp [handlePing_rc, hping, Opcode.close, Opcode.text, Opcode.binary, Opcode.cont, Opcode.ping]
  rw [if_neg hping]
  by_cases hpong : hdr.opcode = Opcode.pong
  · rw [if_pos hpong]
    dsimp only
    rw [ret_of_handler]
    simp [handlePong_rc, hpong, Opcode.close, Opcode.text, Opcode.binary, Opcode.cont, Opcode.pong]
  rw [if_neg hpong]
  refine ⟨fun _ => ?_, fun _ => rfl⟩
  simp only [Opcode.text, Opcode.binary, Opcode.cont, Opcode.close, Opcode.ping, Opcode.pong] at *
  omega

theorem noteCompressed_mode (hdr : FrameHeader) (c : Conn σ δ) :
    (noteCompressed hdr c).msg.mode = c.msg.mode := by
  unfold noteCompressed
  split <;> rfl

-- The route of a frame that is complete: what it refuses of what is to be refused.
theorem wholeFrame_refuses {hdr : FrameHeader} (hop : hdr.opcode < 16) {size : Nat} {c : Conn σ δ}
    (hfit : size + hdr.payloadLen ≤ c.recv.length)
    (hdec : hdr.rsv1 = true → hdr.fin = true → Decodes env hdr size c) :
    (wholeFrame env hdr size c).1 = .ret Err.wsProtocol ↔
      Violates env.isClient c.deflate.isSome c.msg.mode hdr
          (bigEndian ((framePayload hdr size c).take 2)) ∧
        ¬ Slips env.isClient c.deflate.isSome c.msg.mode hdr := by
  have hlen : (framePayload hdr size c).length = hdr.payloadLen := by
    rw [framePayload_length, List.length_take, List.length_drop]
    omega
  have hdeflate : (unmaskFrame hdr size c).deflate.isNone = !c.deflate.isSome := by
    cases h : c.deflate <;> simp [unmaskFrame, h]
  unfold wholeFrame
  simp only [isControl_iff hop, hdeflate]
  by_cases hmask : hdr.mask = env.isClient
  · rw [if_pos hmask]
    exact ⟨fun _ => ⟨.inl hmask, fun h => h.1 hmask⟩, fun _ => rfl⟩
  rw [if_neg hmask]
  by_cases hrsv : hdr.rsv2 = true ∨ hdr.rsv3 = true
  · rw [if_pos hrsv]
    refine ⟨fun _ => ⟨.inr (hrsv.elim .inl fun h => .inr (.inl h)), fun h => ?_⟩, fun _ => rfl⟩
    rcases hrsv with hrsv | hrsv
    · cases h.2.1.symm.trans hrsv
    · cases h.2.2.1.symm.trans hrsv
  rw [if_neg hrsv]
  -- RSV1 where it may not stand
  have hrsv1 : ∀ h : hdr.rsv1 = true, (8 ≤ hdr.opcode ∨ c.deflate.isSome = false ∨ hdr.opcode = Opcode.cont) →
      Violates env.isClient c.deflate.isSome c.msg.mode hdr
          (bigEndian ((framePayload hdr size c).take 2)) ∧
        ¬ Slips env.isClient c.deflate.isSome c.msg.mode hdr := by
    intro h1 hwhy
    refine ⟨.inr (.inr (.inr (.inl ⟨h1, by tauto⟩))), ?_⟩
    rintro ⟨-, -, -, -, ⟨hlow, hhigh, -, hdf, -⟩ | ⟨-, hno, -⟩⟩
    · rcases hwhy with h | h | h
      · omega
      · cases h.symm.trans hdf
      · rw [h] at hlow
        exact absurd hlow (by decide)
    · cases hno.symm.trans h1
  by_cases hctl : hdr.rsv1 = true ∧ 8 ≤ hdr.opcode
  · rw [if_pos hctl]
    exact ⟨fun _ => hrsv1 hctl.1 (.inl hctl.2), fun _ => rfl⟩
  rw [if_neg hctl]
  by_cases hdf : hdr.rsv1 = true ∧ (!c.deflate.isSome) = true
  · rw [if_pos hdf]
    exact ⟨fun _ => hrsv1 hdf.1 (.inr (.inl (by simpa using hdf.2))), fun _ => rfl⟩
  rw [if_neg hdf]
  by_cases hcont : hdr.rsv1 = true ∧ hdr.opcode = Opcode.cont
  · rw [if_pos hcont]
    exact ⟨fun _ => hrsv1 hcont.1 (.inr (.inr hcont.2)), fun _ => rfl⟩
  rw [if_neg hcont]
  have hrsv2 : hdr.rsv2 = false ∧ hdr.rsv3 = false := by simpa using hrsv
  by_cases hone : hdr.rsv1 = true ∧ hdr.fin = true
  · rw [if_pos hone, oneshotFrame_refuses (hdec hone.1 hone.2)]
    have hdeflates : c.deflate.isSome = true := by
      by_contra h
      exact hdf ⟨hone.1, by simpa using h⟩
    have hlow : hdr.opcode < 8 ∧ hdr.opcode ≠ 0 := by
      simp only [hone.1, true_and] at hctl hcont
      exact ⟨by omega, hcont⟩
    simp only [Violates, Slips, hrsv2, hone, hdeflates, Opcode.cont, Opcode.text, Opcode.binary,
      Opcode.close]
    by_cases hmode : c.msg.mode = .none
    · simp [hmode, hmask]
      omega
    · simp [hmode, hmask]
      omega
  · rw [if_neg hone, plainFrame_refuses hdr hop size _ hlen, noteCompressed_mode]
    have hmode : (unmaskFrame hdr size c).msg.mode = c.msg.mode := rfl
    rw [hmode]
    have hno : ¬ (hdr.rsv1 = true ∧ (c.deflate.isSome = false ∨ 8 ≤ hdr.opcode ∨ hdr.opcode = Opcode.cont)) := by
      rintro ⟨h1, h | h | h⟩
      · exact hdf ⟨h1, by simp [h]⟩
      · exact hctl ⟨h1, h⟩
      · exact hcont ⟨h1, h⟩
    have hslip : Slips env.isClient c.deflate.isSome c.msg.mode hdr ↔
        hdr.fin = true ∧ hdr.opcode = Opcode.close ∧ hdr.payloadLen = 1 := by
      simp only [Slips, hrsv2, ne_eq, hmask, not_false_eq_true, true_and]
      refine and_congr_right fun hfin => ?_
      constructor
      · rintro (⟨-, -, h1, -⟩ | ⟨hc, -, hl⟩)
        · exact absurd ⟨h1, hfin⟩ hone
        · exact ⟨hc, hl⟩
      · rintro ⟨hc, hl⟩
        exact .inr ⟨hc, eq_false_of_ne_true fun h1 => hone ⟨h1, hfin⟩, hl⟩
    rw [hslip]
    simp only [Violates, hrsv2, hmask, hno, Bool.false_eq_true, false_or]
    generalize closeCodeValid (bigEndian ((framePayload hdr size c).take 2)) = valid
    simp only [Opcode.cont, Opcode.text, Opcode.binary, Opcode.close]
    by_cases hmode : c.msg.mode = .none <;> cases hdr.fin <;> cases valid <;> simp [hmode] <;> omega

-- The route of a large frame, which is not complete yet.
theorem beginStream_refuses {hdr : FrameHeader} (hop : hdr.opcode < 16) (hlong : 125 < hdr.payloadLen)
    (size code : Nat) (c : Conn σ δ) :
    (beginStream env hdr size c).1 = none ∧
        ¬ Violates env.isClient c.deflate.isSome c.msg.mode hdr code ∨
      (beginStream env hdr size c).1 = some Err.wsProtocol ∧
        Violates env.isClient c.deflate.isSome c.msg.mode hdr code := by
  unfold beginStream
  by_cases hrsv : hdr.rsv2 = true ∨ hdr.rsv3 = true
  · rw [if_pos hrsv]
    exact .inr ⟨rfl, .inr (hrsv.elim .inl fun h => .inr (.inl h))⟩
  rw [if_neg hrsv]
  by_cases hdf : hdr.rsv1 = true ∧ c.deflate.isNone = true
  · rw [if_pos hdf]
    refine .inr ⟨rfl, .inr (.inr (.inr (.inl ⟨hdf.1, .inl ?_⟩)))⟩
    rw [← Option.not_isSome, Bool.not_eq_true'] at hdf
    exact hdf.2
  rw [if_neg hdf]
  by_cases hcont : hdr.rsv1 = true ∧ hdr.opcode = Opcode.cont
  · rw [if_pos hcont]
    exact .inr ⟨rfl, .inr (.inr (.inr (.inl ⟨hcont.1, .inr (.inr hcont.2)⟩)))⟩
  rw [if_neg hcont]
  by_cases hmask : hdr.mask = env.isClient
  · rw [if_pos hmask]
    exact .inr ⟨rfl, .inl hmask⟩
  rw [if_neg hmask]
  -- a control frame of this size, or no opcode at all
  have hother : 3 ≤ hdr.opcode → Violates env.isClient c.deflate.isSome c.msg.mode hdr code := by
    intro h3
    unfold Violates
    rcases Nat.lt_or_ge hdr.opcode 8 with h | h
    · exact .inr (.inr (.inr (.inr (.inl ⟨h3, by omega⟩))))
    · exact .inr (.inr (.inr (.inr (.inr (.inr (.inl ⟨h, .inl hlong⟩))))))
  by_cases hbusy : c.msg.mode ≠ .none ∧ hdr.opcode ≠ Opcode.cont
  · rw [if_pos hbusy]
    refine .inr ⟨rfl, ?_⟩
    rcases Nat.lt_or_ge hdr.opcode 3 with h | h
    · have hne : hdr.opcode ≠ 0 := hbusy.2
      have hop : hdr.opcode = Opcode.text ∨ hdr.opcode = Opcode.binary := by
        simp only [Opcode.text, Opcode.binary]
        omega
      exact .inr (.inr (.inr (.inr (.inr (.inr (.inr (.inl ⟨hop, hbusy.1⟩)))))))
    · exact hother h
  rw [if_neg hbusy]
  by_cases hfirst : c.msg.mode = .none ∧ hdr.opcode ≠ Opcode.text ∧ hdr.opcode ≠ Opcode.binary
  · rw [if_pos hfirst]
    refine .inr ⟨rfl, ?_⟩
    rcases Nat.lt_or_ge hdr.opcode 3 with h | h
    · have hne : hdr.opcode ≠ 1 ∧ hdr.opcode ≠ 2 := hfirst.2
      have hop : hdr.opcode = Opcode.cont := by
        simp only [Opcode.cont]
        omega
      exact .inr (.inr (.inr (.inr (.inr (.inr (.inr (.inr (.inl ⟨hop, hfirst.1⟩))))))))
    · exact hother h
  rw [if_neg hfirst]
  refine .inl ⟨rfl, ?_⟩
  -- a CONT frame of a message in progress, or the first frame of a new one
  have hdata : hdr.opcode = 0 ∧ c.msg.mode ≠ .none ∨
      (hdr.opcode = 1 ∨ hdr.opcode = 2) ∧ c.msg.mode = .none := by
    simp only [Opcode.cont, Opcode.text, Opcode.binary, not_and_or, not_not] at hbusy hfirst
    tauto
  rintro (h | h | h | ⟨h1, h | h | h⟩ | h | h | h | h | h | h)
  · exact hmask h
  · exact hrsv (.inl h)
  · exact hrsv (.inr h)
  · refine hdf ⟨h1, ?_⟩
    rw [← Option.not_isSome, h]
    rfl
  · rcases hdata with ⟨hop, -⟩ | ⟨hop, -⟩ <;> omega
  · exact hcont ⟨h1, h⟩
  · rcases hdata with ⟨hop, -⟩ | ⟨hop, -⟩ <;> omega
  · rcases hdata with ⟨hop, -⟩ | ⟨hop, -⟩ <;> omega
  · rcases hdata with ⟨hop, -⟩ | ⟨hop, -⟩ <;> omega
  · rcases hdata with ⟨hop, -⟩ | ⟨-, hmode⟩
    · simp only [hop, Opcode.text, Opcode.binary] at h
      omega
    · exact h.2 hmode
  · rcases hdata with ⟨-, hmode⟩ | ⟨hop, -⟩
    · exact hmode h.2
    · have hop0 : hdr.opcode = 0 := h.1
      omega
  · have hop8 : hdr.opcode = 8 := h.1
    rcases hdata with ⟨hop, -⟩ | ⟨hop, -⟩ <;> omega

-- ---- a frame of which some part is buffered ----

-- A frame with its header: what the peer sends.
structure IsFrame (f : Bytes) (hdr : FrameHeader) (size : Nat) : Prop where
  header : parseHeader f = .complete hdr size
  length : f.length = size + hdr.payloadLen

-- The frame is at the head of the buffer, or what is buffered is its beginning.
def AtHead (f : Bytes) (c : Conn σ δ) : Prop := f <+: c.recv ∨ c.recv <+: f

def closeCodeOf (hdr : FrameHeader) (size : Nat) (f : Bytes) : Nat :=
  bigEndian ((if hdr.mask then applyMask hdr.maskKey ((f.drop size).take hdr.payloadLen)
    else (f.drop size).take hdr.payloadLen).take 2)

theorem closeCodeOf_whole {f : Bytes} {hdr : FrameHeader} {size : Nat} (hf : IsFrame f hdr size)
    {c : Conn σ δ} (hp : f <+: c.recv) :
    closeCodeOf hdr size f = bigEndian ((framePayload hdr size c).take 2) := by
  obtain ⟨x, hx⟩ := hp
  have hlen := hf.length
  have hraw : (c.recv.drop size).take hdr.payloadLen = (f.drop size).take hdr.payloadLen := by
    rw [← hx, List.drop_append_of_le_length (by omega), List.take_append_of_le_length]
    rw [List.length_drop]
    omega
  rw [closeCodeOf, framePayload, hraw]

-- How a buffer with some part of the frame is looked at.
theorem look_frame {f : Bytes} {hdr : FrameHeader} {size : Nat} (hf : IsFrame f hdr size)
    {c : Conn σ δ} (hat : AtHead f c) :
    c.look env = .whole hdr size ∧ f <+: c.recv ∨
      ¬ f <+: c.recv ∧ (c.look env = .more ∨
        c.look env = .large hdr size ∧ env.recvCap / 2 < size + hdr.payloadLen) := by
  have hmax := (parseHeader_fields hf.header).2
  have hlen := hf.length
  by_cases hp : f <+: c.recv
  · refine .inl ⟨?_, hp⟩
    have hfit := hp.length_le
    obtain ⟨x, hx⟩ := hp
    have hhead : parseHeader c.recv = .complete hdr size := by
      rw [← hx, parseHeader_append x (by rw [hf.header]; exact nofun), hf.header]
    unfold look
    rw [hhead]
    dsimp only
    rw [if_neg (by omega), if_neg (by omega)]
  · refine .inr ⟨hp, ?_⟩
    have hpart : c.recv <+: f := hat.resolve_left hp
    have hshort : c.recv.length < size + hdr.payloadLen := by
      have hle := hpart.length_le
      by_contra hge
      exact hp (hpart.eq_of_length (by omega) ▸ List.prefix_rfl)
    unfold look
    rcases parseHeader_part hpart with h | h
    · rw [h]
      exact .inl rfl
    rw [h, hf.header]
    dsimp only
    rw [if_neg (by omega), if_pos hshort]
    split
    · exact .inr ⟨rfl, by omega⟩
    · exact .inl rfl

theorem firstFrame_large {hdr : FrameHeader} {size : Nat} {c : Conn σ δ}
    (h : c.look env = .large hdr size) :
    (firstFrame env c).1 = .ret ((beginStream env hdr size c).1.getD 0) := by
  rw [firstFrame, h]
  dsimp only
  rcases beginStream env hdr size c with ⟨_ | err, c'⟩ <;> rfl

-- A frame is decided when it is whole, or large with its header in the buffer; until then nothing
-- happens. What is decided is the same by either route, but for the frames that slip through.
theorem frame_verdict (env : Env σ δ) (hcap : 1024 ≤ env.recvCap) (c : Conn σ δ) :
    (∀ fuel, c.recv ≠ [] → c.state = .opened → c.destroyed = false →
      processFrames env (fuel + 1) c =
        match firstFrame env c with
        | (.goOn, c) => processFrames env fuel c
        | (.ret r, c) => (r, c)) ∧
    (TopBit c.recv → Refuses env c) ∧
    ∀ f hdr size, IsFrame f hdr size → AtHead f c →
      (f <+: c.recv → hdr.rsv1 = true → hdr.fin = true → Decodes env hdr size c) →
      c.look env = .more ∧ firstFrame env c = (.ret 0, c) ∧ ¬ f <+: c.recv ∨
      ((Refuses env c ↔
          Violates env.isClient c.deflate.isSome c.msg.mode hdr (closeCodeOf hdr size f)) ↔
        ¬ (f <+: c.recv ∧ Slips env.isClient c.deflate.isSome c.msg.mode hdr)) := by
  refine ⟨fun fuel hr ho hd => processFrames_first env fuel hr (by rw [ho]; decide) hd, ?_, ?_⟩
  · intro htop
    have hlook : c.look env = .protocol := by
      rw [look, parseHeader_error.mpr htop]
    rw [Refuses, firstFrame, hlook]
  intro f hdr size hf hat hdec
  have hop := (parseHeader_fields hf.header).1
  rcases look_frame hf hat with ⟨hlook, hp⟩ | ⟨hp, hlook | ⟨hlook, hlong⟩⟩
  · -- the whole frame
    have hrefuses : Refuses env c ↔ Violates env.isClient c.deflate.isSome c.msg.mode hdr
          (closeCodeOf hdr size f) ∧ ¬ Slips env.isClient c.deflate.isSome c.msg.mode hdr := by
      rw [Refuses, firstFrame, hlook, closeCodeOf_whole hf hp]
      exact wholeFrame_refuses hop (look_whole env hlook).2.1 (hdec hp)
    have hslips : Slips env.isClient c.deflate.isSome c.msg.mode hdr →
        Violates env.isClient c.deflate.isSome c.msg.mode hdr (closeCodeOf hdr size f) :=
      Slips.violates _
    right
    rw [hrefuses, and_iff_right hp]
    constructor
    · intro h hs
      exact (h.mpr (hslips hs)).2 hs
    · intro hs
      exact ⟨fun h => h.1, fun h => ⟨h, hs⟩⟩
  · -- not enough of it
    refine .inl ⟨hlook, ?_, hp⟩
    rw [firstFrame, hlook]
  · -- a large frame whose header has come
    have hsize := parseHeader_complete hf.header
    right
    have hrefuses : Refuses env c ↔ Violates env.isClient c.deflate.isSome c.msg.mode hdr
          (closeCodeOf hdr size f) := by
      rw [Refuses, firstFrame_large hlook]
      rcases beginStream_refuses hop (by omega) size (closeCodeOf hdr size f) c with
        ⟨h, hv⟩ | ⟨h, hv⟩
      · rw [h]
        exact ⟨fun h => by simp [Err.wsProtocol] at h, fun h => absurd h hv⟩
      · rw [h]
        exact ⟨fun _ => hv, fun _ => rfl⟩
    rw [hrefuses]
    exact ⟨fun _ h => hp h.1, fun _ => Iff.rfl⟩

-- An open connection with these bytes in its buffer.
def openWith (env : Env σ δ) (request f : Bytes) : Conn σ δ :=
  { run env (start [] 0 [] 1) [.streamOpened, .data request] with recv := f }

-- A reserved opcode without RSV1.
def reservedFrame : Bytes := [0x83, 0x81, 0, 0, 0, 0, 0x41]

def reservedHeader : FrameHeader :=
  { fin := true, rsv1 := false, rsv2 := false, rsv3 := false, opcode := 3, mask := true
    payloadLen := 1, maskKey := ⟨0, 0, 0, 0⟩ }

theorem openWith_sample (f : Bytes) :
    openWith plainServer sampleRequest f = { openServer with recv := f } := rfl

theorem frame_verdict_reserved :
    Refuses plainServer (openWith plainServer sampleRequest reservedFrame) := by
  have hwhole : reservedFrame <+: (openWith plainServer sampleRequest reservedFrame).recv :=
    List.prefix_rfl
  rcases (frame_verdict plainServer (by decide) (openWith plainServer sampleRequest reservedFrame)).2.2
    reservedFrame reservedHeader 6 ⟨by decide, rfl⟩ (.inl hwhole)
    (fun _ h => by cases h) with h | h
  · exact absurd hwhole h.2.2
  · have hviolates : Violates plainServer.isClient
        (openWith plainServer sampleRequest reservedFrame).deflate.isSome
        (openWith plainServer sampleRequest reservedFrame).msg.mode reservedHeader
        (closeCodeOf reservedHeader 6 reservedFrame) := by
      rw [openWith_sample, openServer_eq]
      decide
    refine (h.mpr ?_).mpr hviolates
    rintro ⟨-, -, -, -, -, ⟨-, -, h1, -⟩ | ⟨hop, -⟩⟩
    · cases h1
    · cases hop

-- A zlib that knows one compressed message, of no bytes.
def zlibEmpty : Zlib Unit Unit :=
  { zlibNone with
    inflateInit := fun _ => some ()
    inflate := fun _ inp _ _ =>
      if inp = 0x00 :: deflateTail then ⟨.ok, (), 5, []⟩ else ⟨.error, (), 0, []⟩
    deflateInit := fun _ _ => some ()
    consumed_le := fun _ inp _ _ => by
      split
      · rename_i h
        rw [h]
        decide
      · exact Nat.zero_le _
    out_le := fun _ _ _ _ => by split <;> exact Nat.zero_le _
    progress := fun _ _ _ _ h => by
      split at h
      · exact .inl (by rw [if_pos ‹_›]; decide)
      · cases h
    backlog_le := fun _ _ _ _ => by split <;> exact Nat.le_refl _ }

def deflateServer : Env Unit Unit := { plainServer with enableDeflate := true, zlib := zlibEmpty }

def deflateRequest : Bytes :=
  ascii "GET /chat HTTP/1.1\r\nHost: a\r\nUpgrade: websocket\r\nConnection: Upgrade\r\n" ++
    ascii "Sec-WebSocket-Extensions: permessage-deflate\r\n" ++
    ascii "Sec-WebSocket-Key: dGhlIHNhbXBsZSBub25jZQ==\r\nSec-WebSocket-Version: 13\r\n\r\n"

-- Half a close code, and the reserved opcode with RSV1 where deflate is in use.
def halfCode : Bytes := [0x88, 0x81, 0, 0, 0, 0, 0x41]

def halfHeader : FrameHeader := { reservedHeader with opcode := Opcode.close }

def reservedCompressed : Bytes := [0xC3, 0x81, 0, 0, 0, 0, 0x00]

def compressedHeader : FrameHeader := { reservedHeader with rsv1 := true }

-- An open connection, a whole frame with a payload that can be inflated, and the wrong verdict.
def Misjudged (env : Env σ δ) (request f : Bytes) (hdr : FrameHeader) (size : Nat) : Prop :=
  let c := openWith env request f
  1024 ≤ env.recvCap ∧ c.state = .opened ∧ parseHeader f = .complete hdr size ∧
    f.length = size + hdr.payloadLen ∧ Decodes env hdr size c ∧
    ¬ (Refuses env c ↔
        Violates env.isClient c.deflate.isSome c.msg.mode hdr (closeCodeOf hdr size f))

instance decidableMisjudged (env : Env σ δ) (request f : Bytes) (hdr : FrameHeader) (size : Nat) :
    Decidable (Misjudged env request f hdr size) := by
  unfold Misjudged Decodes
  infer_instance

theorem violations_pass :
    Misjudged plainServer sampleRequest halfCode halfHeader 6 ∧
      Misjudged deflateServer deflateRequest reservedCompressed compressedHeader 6 := by
  refine ⟨?_, by decide +kernel⟩
  simp only [Misjudged, Decodes, openWith_sample, openServer_eq]
  decide

end Conn

end Sevent.Ws
