import Sevent.Ws.Room
import Sevent.Ws.Scalars
import Sevent.Ws.Sent

-- The CLOSE frame of sevent_ws_shutdown at the peer.
namespace Sevent.Ws.Conn

variable {σ δ σ' δ' : Type}

-- ---- what the peer makes of a CLOSE frame ----

-- The peer after its answer, which is sent unless it waits for one itself.
def answered (env : Env σ δ) (payload : Bytes) (p : Conn σ δ) : Conn σ δ :=
  if p.state = .closing then p
  else (sendFrame env (notify env) Opcode.close (.bytes payload) p).2

-- The checks of handle_close are passed, and the peer is CLOSED with the code and a prefix of the
-- reason. Its user hears them unless the stream is torn down by the answer.
def PeerAccepts (env : Env σ δ) (p : Conn σ δ) (code : Nat) (reason sent : Bytes) : Prop :=
  ∃ payload part, ReadAs (!env.isClient) Opcode.close payload sent ∧ part <+: reason ∧
    handleClose env payload p =
      (Err.success, enterClosed (notify env) code part (answered env payload p)) ∧
    (handleClose env payload p).2.state = .closed ∧
    ((answered env payload p).gone = false → env.onClose.isSome = true →
      Event.onClose code part ∈ (handleClose env payload p).2.log)

section

variable {env : Env σ δ} {p : Conn σ δ}

theorem acceptClose_eq (payload : Bytes) (code : Nat) (reason : Bytes) (p : Conn σ δ) :
    acceptClose env payload code reason p =
      enterClosed (notify env) code reason (answered env payload p) := by
  unfold acceptClose answered
  split <;> rfl

theorem answered_moves (payload : Bytes) (p : Conn σ δ) : Moves env p (answered env payload p) := by
  unfold answered
  split
  · exact .refl
  · rename_i hne
    exact sendFrameRaw_moves (notify_moves env) _ _ _ p fun hc => absurd hc hne

theorem enterClosed_heard {c : Conn σ δ} (code : Nat) (reason : Bytes) (hg : c.gone = false)
    (hcb : env.onClose.isSome = true) :
    Event.onClose code reason ∈ (enterClosed (notify env) code reason c).log := by
  rw [enterClosed, if_neg (by simp [hg])]
  refine (notify_moves env (.close code reason) c.shut).log_grows.subset ?_
  have hevent : noticeEvents env (.close code reason) = [.onClose code reason] := if_pos hcb
  rw [notifyNested_eq, hevent]
  exact List.mem_append_right _ (List.mem_singleton.mpr rfl)

-- ---- the first thing that the peer does ----

variable (env) in
theorem enterClosed_first {c : Conn σ δ} (code : Nat) (reason : Bytes) (hg : c.gone = false) :
    c.log ++ [.state .closed] <+: (enterClosed (notify env) code reason c).log := by
  rw [enterClosed, if_neg (by simp [hg])]
  refine List.IsPrefix.trans ?_ (notify_moves env (.close code reason) c.shut).log_grows
  rw [notifyNested_eq, shut_eq, shutEvents, List.append_assoc]
  exact (List.prefix_append_right_inj _).mpr ⟨_, rfl⟩

variable (env) in
theorem sendFrameRaw_first (opcode : Nat) (payload : Arg) (rsv1 : Bool) (c : Conn σ δ) :
    (sendFrameRaw env (notify env) opcode payload rsv1 c).2.gone = c.gone ∧
        (sendFrameRaw env (notify env) opcode payload rsv1 c).2.log = c.log ∨
      ∃ ok, c.log ++ [.alloc ok] <+: (sendFrameRaw env (notify env) opcode payload rsv1 c).2.log := by
  rcases sendFrameRaw_cases env (notify env) opcode payload rsv1 c with
    ⟨seed, events, rfl | ⟨ok, rfl⟩, h⟩ | ⟨seed, data, res, -, -, h⟩
  · rw [h]
    exact .inl ⟨rfl, List.append_nil _⟩
  · rw [h]
    exact .inr ⟨ok, List.prefix_rfl⟩
  · rw [h]
    refine .inr ⟨true, List.IsPrefix.trans ?_ (settle_moves (notify_moves env) res _).log_grows⟩
    exact List.prefix_append _ _

theorem sendFrameRaw_grows (opcode : Nat) (payload : Arg) (rsv1 : Bool) (c : Conn σ δ) :
    c.log <+: (sendFrameRaw env (notify env) opcode payload rsv1 c).2.log := by
  rcases sendFrameRaw_first env opcode payload rsv1 c with ⟨-, h⟩ | ⟨ok, h⟩
  · exact h ▸ List.prefix_rfl
  · exact (List.prefix_append _ _).trans h

-- The answer 1007 is not how a CLOSE frame is accepted.
theorem acceptClose_ne (payload : Bytes) (code code' : Nat) (reason : Bytes) (hg : p.gone = false) :
    enterClosed (notify env) code reason (answered env payload p) ≠
      sendCloseCode env (notify env) code' p := by
  have hrefused : p.log ++ [.closeCode code' p.state] <+: (sendCloseCode env (notify env) code' p).log :=
    (sendFrameRaw_grows Opcode.close (.bytes (beCode code')) false (p.emit (.closeCode code' p.state))).trans
      (enterClosed_moves (notify_moves env) _ _ _).log_grows
  have haccepted : ∃ e, e ≠ .closeCode code' p.state ∧
      p.log ++ [e] <+: (enterClosed (notify env) code reason (answered env payload p)).log := by
    unfold answered
    split
    · exact ⟨_, Event.noConfusion, enterClosed_first env code reason hg⟩
    · rcases sendFrameRaw_first env Opcode.close (.bytes payload) false p with
        ⟨hgone, hlog⟩ | ⟨ok, hlog⟩
      · have hfirst := enterClosed_first env code reason (hgone.trans hg)
        rw [hlog] at hfirst
        exact ⟨_, Event.noConfusion, hfirst⟩
      · exact ⟨_, Event.noConfusion,
          hlog.trans (enterClosed_moves (notify_moves env) _ _ _).log_grows⟩
  intro heq
  obtain ⟨e, hne, hprefix⟩ := haccepted
  rw [heq] at hprefix
  have hsame := List.IsPrefix.eq_of_length (List.prefix_of_prefix_length_le hprefix hrefused (by simp))
    (by simp)
  exact hne (List.singleton_injective (List.append_cancel_left hsame))

end

-- ---- the CLOSE frame of sevent_ws_shutdown ----

variable {env : Env σ δ} {c : Conn σ δ}

theorem beCode_code (code : UInt16) : bigEndian (beCode code.toNat) = code.toNat := by
  have hlt := code.toNat_lt
  simp only [beCode, bigEndian, List.foldl_cons, List.foldl_nil, UInt8.toNat_ofNat']
  omega

-- A call that succeeds has sent the code and at most 123 bytes of the reason, and the code is valid.
theorem shutdown_sent (code : UInt16) (reason : Option Bytes) (ho : c.state = .opened)
    (hok : (shutdown env (notify env) code.toNat reason c).1 = Err.success) :
    closeCodeValid code.toNat = true ∧
      outs (shutdown env (notify env) code.toNat reason c).2.log =
        outs c.log ++ [frameBytes env.isClient c.nextKey Opcode.close
          (beCode code.toNat ++ (cString (reason.getD [])).take 123)] := by
  have hnot : ¬ c.state ≠ .opened := fun h => h ho
  unfold shutdown at hok ⊢
  rw [if_neg hnot] at hok ⊢
  dsimp only at hok ⊢
  obtain ⟨hfail, hrc⟩ := failWrite_success hok
  rw [hfail]
  obtain ⟨⟨-, -, hcode⟩, head, hhead, houts⟩ := sendFrameRaw_sent ho (by decide) hrc
  refine ⟨?_, ?_⟩
  · have hcode := hcode rfl (by simp [Arg.len, beCode])
    have htake : ((Arg.bytes (beCode code.toNat ++ (cString (reason.getD [])).take 123)).toOption.getD []).take
        2 = beCode code.toNat := rfl
    rwa [htake, beCode_code] at hcode
  · rw [frameBytes_eq _ hhead] at houts
    split
    · rw [setState, outs_append, sendFrame, houts, List.append_assoc]
      rfl
    · exact houts

-- The reason may be cut after 123 bytes: it ends there, or a character begins there.
def CutsBetween (reason : Bytes) : Prop := ∀ b, reason[123]? = some b → isTail b = false

instance decidableCutsBetween (reason : Bytes) : Decidable (CutsBetween reason) :=
  match h : reason[123]? with
  | none => isTrue fun b hb => by cases h.symm.trans hb
  | some x =>
      if hx : isTail x = false then isTrue fun b hb => by cases h.symm.trans hb; exact hx
      else isFalse fun hc => hx (hc x h)

-- What handle_close makes of a code and a part of a reason.
theorem handleClose_part (env : Env σ' δ') (p : Conn σ' δ') (code : UInt16) (part : Bytes)
    (hcode : closeCodeValid code.toNat = true) :
    handleClose env (beCode code.toNat ++ part) p =
      if utf8Validate part = true then
        (Err.success, enterClosed (notify env) code.toNat part
          (answered env (beCode code.toNat ++ part) p))
      else (Err.success, sendCloseCode env (notify env) 1007 p) := by
  have htake : (beCode code.toNat ++ part).take 2 = beCode code.toNat := rfl
  have hdrop : (beCode code.toNat ++ part).drop 2 = part := rfl
  unfold handleClose
  rw [if_pos (by simp [beCode]), htake, hdrop, beCode_code]
  dsimp only
  rw [hcode, if_neg (by decide), acceptClose_eq]
  by_cases hutf : utf8Validate part = true
  · rw [if_pos hutf, if_neg (by simp [hutf])]
    rfl
  · have hne : part ≠ [] := fun h => hutf (by rw [h]; rfl)
    rw [if_neg hutf, if_pos ⟨hne, by simpa using hutf⟩]
    rfl

theorem closeFrame_accepted {isClient : Bool} (key : MaskKey) {code : UInt16} {reason : Bytes}
    (hcode : closeCodeValid code.toNat = true) (hutf : utf8Validate reason = true)
    (peer : Env σ' δ') {p : Conn σ' δ'} (hrole : peer.isClient = !isClient)
    (hp : p.state = .opened ∨ p.state = .closing) (hd : p.destroyed = false) :
    PeerAccepts peer p code.toNat reason
        (frameBytes isClient key Opcode.close (beCode code.toNat ++ reason.take 123)) ↔
      CutsBetween reason := by
  have hrole : isClient = !peer.isClient := by rw [hrole, Bool.not_not]
  have hg : p.gone = false := by
    rcases hp with hp | hp <;> simp [gone, hd, hp]
  have hread : ReadAs (!peer.isClient) Opcode.close (beCode code.toNat ++ reason.take 123)
      (frameBytes isClient key Opcode.close (beCode code.toNat ++ reason.take 123)) := by
    rw [hrole]
    refine frameBytes_readAs _ _ (by decide) ?_
    have := List.length_take_le 123 reason
    simp only [beCode, List.length_append, List.length_cons, List.length_nil]
    omega
  rw [CutsBetween, ← utf8Validate_take hutf 123]
  constructor
  · rintro ⟨payload, part, hread', -, heq, -, -⟩
    by_contra hcut
    rw [hread'.unique hread, handleClose_part peer p code _ hcode, if_neg hcut] at heq
    exact acceptClose_ne _ _ _ _ hg (congrArg Prod.snd heq).symm
  · intro hcut
    have heq := handleClose_part peer p code (reason.take 123) hcode
    rw [if_pos hcut] at heq
    refine ⟨_, reason.take 123, hread, List.take_prefix _ _, heq, ?_, ?_⟩
    · rw [heq]
      refine enterClosed_over _ _ ((Moves.onward (answered_moves _ p)).honest fun h => ?_)
      cases hd.symm.trans h
    · intro hgone hcb
      rw [heq]
      exact enterClosed_heard _ _ hgone hcb

theorem shutdown_accepted_iff (env : Env σ δ) (c : Conn σ δ) (code : UInt16) (reason : Option Bytes)
    (ho : c.state = .opened) (hutf : utf8Validate (cString (reason.getD [])) = true)
    (hok : (shutdown env (notify env) code.toNat reason c).1 = Err.success)
    (peer : Env σ' δ') (p : Conn σ' δ') (hrole : peer.isClient = !env.isClient)
    (hp : p.state = .opened ∨ p.state = .closing) (hd : p.destroyed = false) :
    ∃ sent, outs (shutdown env (notify env) code.toNat reason c).2.log = outs c.log ++ [sent] ∧
      (PeerAccepts peer p code.toNat (cString (reason.getD [])) sent ↔
        CutsBetween (cString (reason.getD []))) := by
  obtain ⟨hcode, hsent⟩ := shutdown_sent code reason ho hok
  exact ⟨_, hsent, closeFrame_accepted c.nextKey hcode hutf peer hrole hp hd⟩

-- ---- two reasons ----

theorem shutdown_accepted_bye :
    ∃ sent, outs (shutdown plainServer (notify plainServer) (1000 : UInt16).toNat
        (some (ascii "bye")) openServer).2.log = outs openServer.log ++ [sent] ∧
      PeerAccepts plainClient openServer (1000 : UInt16).toNat (cString (ascii "bye")) sent := by
  have hopen : openServer.state = .opened ∧ openServer.destroyed = false := by
    rw [openServer_eq]
    decide
  have hok : (shutdown plainServer (notify plainServer) (1000 : UInt16).toNat (some (ascii "bye"))
      openServer).1 = Err.success := by
    rw [openServer_eq]
    decide
  obtain ⟨sent, hsent, hiff⟩ := shutdown_accepted_iff plainServer openServer 1000 (some (ascii "bye"))
    hopen.1 (by decide) hok plainClient openServer rfl (.inl hopen.1) hopen.2
  exact ⟨sent, hsent, hiff.mpr (by decide)⟩

-- 122 letters and a character of two bytes.
def longReason : Bytes := List.replicate 122 0x61 ++ [0xC3, 0xA9]

theorem long_reason_refused :
    utf8Validate (cString longReason) = true ∧
      (shutdown plainServer (notify plainServer) (1000 : UInt16).toNat (some longReason) openServer).1 =
        Err.success ∧
      ∃ sent, outs (shutdown plainServer (notify plainServer) (1000 : UInt16).toNat (some longReason)
          openServer).2.log = outs openServer.log ++ [sent] ∧
        ¬ PeerAccepts plainClient openServer (1000 : UInt16).toNat (cString longReason) sent := by
  have hopen : openServer.state = .opened ∧ openServer.destroyed = false := by
    rw [openServer_eq]
    decide
  have hutf : utf8Validate (cString longReason) = true := by decide
  have hok : (shutdown plainServer (notify plainServer) (1000 : UInt16).toNat (some longReason)
      openServer).1 = Err.success := by
    rw [openServer_eq]
    decide +kernel
  obtain ⟨hcode, hsent⟩ := shutdown_sent 1000 (some longReason) hopen.1 hok
  refine ⟨hutf, hok, _, hsent, fun h => ?_⟩
  have hcut := (closeFrame_accepted openServer.nextKey hcode hutf plainClient rfl
    (.inl hopen.1) hopen.2).mp h
  exact absurd (hcut 0xA9 (by decide)) (by decide)

end Sevent.Ws.Conn
