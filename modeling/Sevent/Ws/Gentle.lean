import Sevent.Ws.Moves
import Sevent.Ws.Receive

-- Callbacks that neither close nor destroy: what they leave alone, and that the receiving side
-- stays alive through every one of its functions.
namespace Sevent.Ws

open Sevent.Stream (WriteRes)

variable {σ δ : Type}

def Api.gentle : Api → Bool
  | .close => false
  | .destroy => false
  | _ => true

def Callback.Gentle (cb : Callback) : Prop :=
  ∀ script, cb = some script → ∀ log, ∀ a ∈ script log, a.gentle = true

structure Env.Gentle (env : Env σ δ) : Prop where
  onMessage : Callback.Gentle env.onMessage
  onPong : Callback.Gentle env.onPong
  onClose : Callback.Gentle env.onClose
  onError : Callback.Gentle env.onError

-- Events that tell of a message.
def Event.spoken : Event → Bool
  | .onMessage _ _ _ _ _ => true
  | .dataFrame _ _ _ _ => true
  | _ => false

namespace Conn

-- The log has grown, and it tells of no message.
def Silent (c c' : Conn σ δ) : Prop :=
  ∃ events, c'.log = c.log ++ events ∧ ∀ e ∈ events, e.spoken = false

theorem Silent.of_log {c c' : Conn σ δ} (h : c'.log = c.log) : Silent c c' :=
  ⟨[], by simp [h], by simp⟩

theorem Silent.trans {a b c : Conn σ δ} (h : Silent a b) (h' : Silent b c) : Silent a c := by
  obtain ⟨e₁, hl₁, hs₁⟩ := h
  obtain ⟨e₂, hl₂, hs₂⟩ := h'
  refine ⟨e₁ ++ e₂, by rw [hl₂, hl₁, List.append_assoc], fun e he => ?_⟩
  exact (List.mem_append.mp he).elim (hs₁ e) (hs₂ e)

theorem Silent.log_grows {c c' : Conn σ δ} (h : Silent c c') : c.log <+: c'.log := by
  obtain ⟨events, hl, _⟩ := h
  exact hl ▸ List.prefix_append _ _

-- A connection that lives on, or has been closed by the other side of the stream.
structure Mild (c c' : Conn σ δ) : Prop where
  destroyed : c'.destroyed = false
  state : c'.state = c.state ∨ c.state = .opened ∧ c'.state = .closing ∨ c'.state = .closed
  stream : c'.stream = c.stream ∨ c'.state = .closed
  log : c.log <+: c'.log

theorem Mild.refl {c : Conn σ δ} (hd : c.destroyed = false) : Mild c c :=
  ⟨hd, .inl rfl, .inl rfl, List.prefix_rfl⟩

theorem Mild.closed {c c' : Conn σ δ} (h : Mild c c') (hc : c.state = .closed) :
    c'.state = .closed := by
  rcases h.state with hs | ⟨ho, _⟩ | hs
  · exact hs.trans hc
  · cases hc.symm.trans ho
  · exact hs

theorem Mild.trans {a b c : Conn σ δ} (h : Mild a b) (h' : Mild b c) : Mild a c := by
  refine ⟨h'.destroyed, ?_, ?_, h.log.trans h'.log⟩
  · rcases h'.state with hs | ⟨ho, hs⟩ | hs
    · rw [hs]
      exact h.state
    · rcases h.state with hb | ⟨_, hb⟩ | hb
      · exact .inr (.inl ⟨hb.symm.trans ho, hs⟩)
      · cases hb.symm.trans ho
      · cases hb.symm.trans ho
    · exact .inr (.inr hs)
  · rcases h'.stream with hs | hs
    · rcases h.stream with hb | hb
      · exact .inl (hs.trans hb)
      · exact .inr (h'.closed hb)
    · exact .inr hs

-- What the calls of the user do to a connection.
structure Aside (c c' : Conn σ δ) : Prop extends Mild c c' where
  silent : Silent c c'
  rx : SameRx c c'

theorem Aside.refl {c : Conn σ δ} (hd : c.destroyed = false) : Aside c c :=
  ⟨Mild.refl hd, Silent.of_log rfl, SameRx.refl c⟩

theorem Aside.trans {a b c : Conn σ δ} (h : Aside a b) (h' : Aside b c) : Aside a c :=
  ⟨h.toMild.trans h'.toMild, h.silent.trans h'.silent, h.rx.trans h'.rx⟩

-- Only counters, the compressor and the log have changed.
theorem Aside.of_log {c c' : Conn σ δ} (hd : c.destroyed = false) (events : List Event)
    (hrx : SameRx c c') (hdes : c'.destroyed = c.destroyed) (hstate : c'.state = c.state)
    (hstream : c'.stream = c.stream) (hlog : c'.log = c.log ++ events)
    (hs : ∀ e ∈ events, e.spoken = false) : Aside c c' :=
  ⟨⟨hdes.trans hd, .inl hstate, .inl hstream, hlog ▸ List.prefix_append _ _⟩,
    ⟨events, hlog, hs⟩, hrx⟩

theorem emit_aside {c : Conn σ δ} (hd : c.destroyed = false) (e : Event) (he : e.spoken = false) :
    Aside c (c.emit e) :=
  .of_log hd [e] (by constructor <;> rfl) rfl rfl rfl rfl (by simpa using he)

-- ---- the calls of the user ----

-- CLOSED, with nothing delivered.
structure Ended (c c' : Conn σ δ) : Prop where
  destroyed : c'.destroyed = false
  state : c'.state = .closed
  silent : Silent c c'
  rx : SameRx c c'

theorem Ended.aside {c c' : Conn σ δ} (h : Ended c c') : Aside c c' :=
  ⟨⟨h.destroyed, .inr (.inr h.state), .inr h.state, h.silent.log_grows⟩, h.silent, h.rx⟩

theorem Ended.of_aside {a b c : Conn σ δ} (h : Ended a b) (h' : Aside b c) : Ended a c :=
  ⟨h'.destroyed, h'.toMild.closed h.state, h.silent.trans h'.silent, h.rx.trans h'.rx⟩

theorem Aside.ended {a b c : Conn σ δ} (h : Aside a b) (h' : Ended b c) : Ended a c :=
  ⟨h'.destroyed, h'.state, h.silent.trans h'.silent, h.rx.trans h'.rx⟩

theorem Ended.of_closed {c : Conn σ δ} (hd : c.destroyed = false) (hc : c.state = .closed) :
    Ended c c :=
  ⟨hd, hc, Silent.of_log rfl, SameRx.refl c⟩

theorem gone_iff_closed {c : Conn σ δ} (hd : c.destroyed = false) :
    c.gone = true ↔ c.state = .closed := by
  simp [gone, hd]

theorem shut_ended {c : Conn σ δ} (hd : c.destroyed = false) : Ended c c.shut := by
  rw [shut_eq]
  refine ⟨hd, rfl, ⟨shutEvents c, rfl, ?_⟩, by constructor <;> rfl⟩
  unfold shutEvents
  split <;> simp [Event.spoken]

section

variable {env : Env σ δ} {nt : Notice → Conn σ δ → Conn σ δ}
variable (hn : ∀ n c, c.destroyed = false → c.state = .closed → Aside c (nt n c))

include hn

theorem shut_notified {c : Conn σ δ} (hd : c.destroyed = false) (n : Notice) :
    Ended c (nt n c.shut) :=
  have h := shut_ended hd
  h.of_aside (hn n c.shut h.destroyed h.state)

theorem enterClosed_ended (code : Nat) (reason : Bytes) {c : Conn σ δ} (hd : c.destroyed = false) :
    Ended c (enterClosed nt code reason c) := by
  unfold enterClosed
  split
  · rename_i hg
    exact .of_closed hd ((gone_iff_closed hd).mp hg)
  · exact shut_notified hn hd (.close code reason)

theorem fatalEnd_ended (err : Int) {c : Conn σ δ} (hd : c.destroyed = false) :
    Ended c (fatalEnd nt err c) :=
  shut_notified hn hd (.error err)

theorem onStreamClose_ended {c : Conn σ δ} (hd : c.destroyed = false) :
    Ended c (onStreamClose nt c) := by
  unfold onStreamClose
  split_ifs with hg hs
  · exact .of_closed hd ((gone_iff_closed hd).mp hg)
  · exact fatalEnd_ended hn _ hd
  · exact enterClosed_ended hn _ _ hd

theorem onStreamError_ended (err : Int) {c : Conn σ δ} (hd : c.destroyed = false) :
    Ended c (onStreamError nt err c) := by
  unfold onStreamError
  split_ifs with hg h₁ h₂
  · exact .of_closed hd ((gone_iff_closed hd).mp hg)
  · exact fatalEnd_ended hn _ hd
  · exact fatalEnd_ended hn _ hd
  · exact enterClosed_ended hn _ _ hd

-- A write that tears the stream down leaves the connection CLOSED.
theorem settle_aside (e : Event) (he : e.spoken = false) (res : WriteRes) {c : Conn σ δ}
    (hd : c.destroyed = false) : Aside c (settle nt res (c.written e res)) := by
  have hw : Silent c (c.written e res) := ⟨[e], rfl, by simpa using he⟩
  have hrx : SameRx c (c.written e res) := by constructor <;> rfl
  have htorn : ∀ c', Ended (c.written e res) c' → Aside c c' := fun c' h =>
    Ended.aside ⟨h.destroyed, h.state, hw.trans h.silent, hrx.trans h.rx⟩
  have hsame : res.tears = false → Aside c (c.written e res) := fun ht =>
    .of_log hd [e] hrx rfl rfl (by simp [written, ht]) rfl (by simpa using he)
  cases res with
  | ok => exact hsame rfl
  | nomem => exact hsame rfl
  | inval => exact hsame rfl
  | failed err => exact htorn _ (onStreamError_ended hn err hd)
  | torn accepted => exact htorn _ (onStreamClose_ended hn hd)

theorem sendFrameRaw_aside (opcode : Nat) (payload : Arg) (rsv1 : Bool) {c : Conn σ δ}
    (hd : c.destroyed = false) : Aside c (sendFrameRaw env nt opcode payload rsv1 c).2 := by
  rcases sendFrameRaw_cases env nt opcode payload rsv1 c with
    ⟨seed, events, he, h⟩ | ⟨seed, data, res, hs, ho, h⟩
  · rw [h]
    refine .of_log hd events (by constructor <;> rfl) rfl rfl rfl rfl ?_
    rcases he with rfl | ⟨ok, rfl⟩ <;> simp [Event.spoken]
  · rw [h]
    have h₁ : Aside c { c with maskSeed := seed, log := c.log ++ [.alloc true] } :=
      .of_log hd [.alloc true] (by constructor <;> rfl) rfl rfl rfl rfl (by simp [Event.spoken])
    exact h₁.trans (settle_aside hn _ rfl res h₁.destroyed)

theorem fatal_ended (err : Int) {c : Conn σ δ} (hd : c.destroyed = false) :
    Ended c (fatal env nt err c) := by
  unfold fatal
  split
  · rename_i hg
    exact .of_closed hd ((gone_iff_closed hd).mp hg)
  · dsimp only
    split
    · rename_i hp
      have h₁ : Aside c (c.setState .closing) :=
        ⟨⟨hd, .inr (.inl ⟨hp.2, rfl⟩), .inl rfl, List.prefix_append _ _⟩,
          ⟨[.state .closing], rfl, by simp [Event.spoken]⟩, by constructor <;> rfl⟩
      have h₂ : Aside _ (sendFrame env nt Opcode.close (.bytes (beCode 1002))
          (c.setState .closing)).2 :=
        sendFrameRaw_aside hn Opcode.close (.bytes (beCode 1002)) false h₁.destroyed
      exact (h₁.trans h₂).ended (fatalEnd_ended hn err h₂.destroyed)
    · exact fatalEnd_ended hn err hd

theorem sendCloseCode_ended (code : Nat) {c : Conn σ δ} (hd : c.destroyed = false) :
    Ended c (sendCloseCode env nt code c) := by
  have h₁ : Aside c (c.emit (.closeCode code c.state)) := emit_aside hd _ rfl
  have h₂ : Aside c
      (sendFrame env nt Opcode.close (.bytes (beCode code)) (c.emit (.closeCode code c.state))).2 :=
    h₁.trans (sendFrameRaw_aside hn Opcode.close (.bytes (beCode code)) false h₁.destroyed)
  exact h₂.ended (enterClosed_ended hn code [] h₂.destroyed)

theorem failWrite_aside (r : Int × Conn σ δ) (hd : r.2.destroyed = false) :
    Aside r.2 (failWrite env nt r).2 := by
  unfold failWrite
  split
  · exact (fatal_ended hn _ hd).aside
  · exact .refl hd

theorem sendMessage_aside (opcode : Nat) (payload : Arg) {c : Conn σ δ}
    (hd : c.destroyed = false) : Aside c (sendMessage env nt opcode payload c).2 := by
  unfold sendMessage
  cases hdf : c.deflate with
  | none => exact sendFrameRaw_aside hn opcode payload false hd
  | some df =>
      dsimp only
      split
      · exact sendFrameRaw_aside hn opcode payload false hd
      · have halloc : Aside c (c.emit (.alloc (env.alloc c.log))) := emit_aside hd _ rfl
        split
        · exact halloc
        · obtain ⟨d, hcomp⟩ := compress_deflate env.zlib df payload.toOption
            (compressMaxlen env.zlib df payload.len)
          have hc : Aside c { c.emit (.alloc (env.alloc c.log)) with
              deflate := some { df with deflate := d } } :=
            .of_log hd [.alloc (env.alloc c.log)] (by constructor <;> simp [emit, hdf]) rfl rfl rfl
              rfl (by simp [Event.spoken])
          rw [← hcomp] at hc
          split
          · exact hc
          · exact hc.trans (sendFrameRaw_aside hn opcode _ true hc.destroyed)

theorem sendText_aside (data : Arg) {c : Conn σ δ} (hd : c.destroyed = false) :
    Aside c (sendText env nt data c).2 := by
  have h₁ : Aside c (sendMessage env nt Opcode.text data c).2 := sendMessage_aside hn _ data hd
  have hsend : Aside c (failWrite env nt (sendMessage env nt Opcode.text data c)).2 :=
    h₁.trans (failWrite_aside hn _ h₁.destroyed)
  unfold sendText
  split
  · exact .refl hd
  · exact hsend
  · split
    · exact .refl hd
    · exact hsend

theorem sendBinary_aside (data : Arg) {c : Conn σ δ} (hd : c.destroyed = false) :
    Aside c (sendBinary env nt data c).2 := by
  have h₁ : Aside c (sendMessage env nt Opcode.binary data c).2 := sendMessage_aside hn _ data hd
  unfold sendBinary
  split
  · exact .refl hd
  · exact h₁.trans (failWrite_aside hn _ h₁.destroyed)

theorem ping_aside (payload : Arg) {c : Conn σ δ} (hd : c.destroyed = false) :
    Aside c (ping env nt payload c).2 := by
  have h₁ : Aside c (sendFrame env nt Opcode.ping payload c).2 :=
    sendFrameRaw_aside hn _ payload false hd
  unfold ping
  split
  · exact .refl hd
  · exact h₁.trans (failWrite_aside hn _ h₁.destroyed)

theorem shutdown_aside (code : Nat) (reason : Option Bytes) {c : Conn σ δ}
    (hd : c.destroyed = false) : Aside c (shutdown env nt code reason c).2 := by
  unfold shutdown
  split
  · exact .refl hd
  · rename_i ho
    have ho : c.state = .opened := by simpa using ho
    dsimp only
    generalize Arg.bytes (beCode code ++ (cString (reason.getD [])).take 123) = payload
    have h₁ : Aside c (sendFrame env nt Opcode.close payload c).2 :=
      sendFrameRaw_aside hn Opcode.close payload false hd
    refine Aside.trans ?_ (failWrite_aside hn _ ?_)
    · dsimp only
      split
      · rename_i h
        have hlive : (sendFrame env nt Opcode.close payload c).2.state ≠ .closed := by
          intro hc
          simp [(gone_iff_closed h₁.destroyed).mpr hc] at h
        refine ⟨⟨h₁.destroyed, .inr (.inl ⟨ho, rfl⟩), ?_, ?_⟩, ?_, h₁.rx.trans ?_⟩
        · exact .inl (h₁.stream.resolve_right hlive)
        · exact h₁.log.trans (List.prefix_append _ _)
        · exact h₁.silent.trans ⟨[.state .closing], rfl, by simp [Event.spoken]⟩
        · constructor <;> rfl
      · exact h₁
    · dsimp only
      split <;> exact h₁.destroyed

theorem call_aside (a : Api) (ha : a.gentle = true) {c : Conn σ δ} (hd : c.destroyed = false) :
    Aside c (call env nt a c) := by
  have hret : ∀ c' rc, Aside c c' → Aside c (c'.emit (.returned rc)) := fun c' rc h =>
    h.trans (emit_aside h.destroyed _ rfl)
  unfold call
  cases a with
  | sendText data => exact hret _ _ (sendText_aside hn data hd)
  | sendBinary data => exact hret _ _ (sendBinary_aside hn data hd)
  | ping payload => exact hret _ _ (ping_aside hn payload hd)
  | shutdown code reason => exact hret _ _ (shutdown_aside hn code reason hd)
  | close => cases ha
  | destroy => cases ha

theorem calls_aside (script : List Api) (hs : ∀ a ∈ script, a.gentle = true) {c : Conn σ δ}
    (hd : c.destroyed = false) : Aside c (calls env nt script c) := by
  induction script generalizing c with
  | nil => exact .refl hd
  | cons a rest ih =>
      have h₁ : Aside c (call env nt a c) := call_aside hn a (hs a (List.mem_cons_self ..)) hd
      exact h₁.trans (ih (fun b hb => hs b (List.mem_cons_of_mem _ hb)) h₁.destroyed)

end

-- ---- callbacks ----

section

variable {env : Env σ δ} (hg : env.Gentle)

theorem notifyNested_aside (n : Notice) {c : Conn σ δ} (hd : c.destroyed = false) :
    Aside c (notifyNested env n c) := by
  rw [notifyNested_eq]
  refine .of_log hd (noticeEvents env n) (by constructor <;> rfl) rfl rfl rfl rfl ?_
  unfold noticeEvents
  cases n <;> split <;> simp [Event.spoken, Notice.event]

include hg

theorem noticeCallback_gentle (n : Notice) : Callback.Gentle (noticeCallback env n) := by
  cases n with
  | close code reason => exact hg.onClose
  | error err => exact hg.onError

theorem notify_aside (n : Notice) {c : Conn σ δ} (hd : c.destroyed = false) :
    Aside c (notify env n c) := by
  have hcb := noticeCallback_gentle hg n
  unfold notify
  cases hc : noticeCallback env n with
  | none => exact .refl hd
  | some cb =>
      have he : Aside c (c.emit n.event) := emit_aside hd _ (by cases n <;> rfl)
      exact he.trans (calls_aside (fun n _ hd _ => notifyNested_aside n hd) _ (hcb cb hc _)
        he.destroyed)

theorem callback_aside {cb : Callback} (hcb : cb.Gentle) (e : Event) (he : e.spoken = false)
    {c : Conn σ δ} (hd : c.destroyed = false) : Aside c (callback env cb e c) := by
  unfold callback
  cases hc : cb with
  | none => exact .refl hd
  | some script =>
      have h₁ : Aside c (c.emit e) := emit_aside hd e he
      exact h₁.trans (calls_aside (fun n _ hd _ => notify_aside hg n hd) _ (hcb script hc _)
        h₁.destroyed)

-- on_message runs with the message in the log.
theorem message_aside (hm : env.onMessage.isSome = true) (site : Site) (data : Bytes)
    (isBin fin : Bool) (total : Nat) {c : Conn σ δ} (hd : c.destroyed = false) :
    Aside (c.emit (.onMessage site data isBin fin total))
      (message env site data isBin fin total c) := by
  unfold message
  cases hc : env.onMessage with
  | none => simp [hc] at hm
  | some script =>
      have h₁ : Aside (c.emit (.onMessage site data isBin fin total))
          (callback env (some script) (.onMessage site data isBin fin total) c) :=
        calls_aside (fun n _ hd _ => notify_aside hg n hd) _ (hg.onMessage script hc _) hd
      exact h₁.trans (emit_aside h₁.destroyed _ rfl)

end

-- ---- what a delivery leaves alone ----

-- The frame that is being read.
structure SameFrame (c c' : Conn σ δ) : Prop where
  recv : c'.recv = c.recv
  remaining : c'.streamRemaining = c.streamRemaining
  fin : c'.streamFin = c.streamFin
  mask : c'.streamMask = c.streamMask
  maskKey : c'.streamMaskKey = c.streamMaskKey
  maskOff : c'.streamMaskOff = c.streamMaskOff

theorem SameFrame.refl (c : Conn σ δ) : SameFrame c c := ⟨rfl, rfl, rfl, rfl, rfl, rfl⟩

-- Every field of the frame is as it was.
theorem SameFrame.of_fields {c c' : Conn σ δ}
    (h : (c'.recv, c'.streamRemaining, c'.streamFin, c'.streamMask, c'.streamMaskKey,
      c'.streamMaskOff) = (c.recv, c.streamRemaining, c.streamFin, c.streamMask, c.streamMaskKey,
      c.streamMaskOff)) : SameFrame c c' := by
  simp only [Prod.mk.injEq] at h
  obtain ⟨h₁, h₂, h₃, h₄, h₅, h₆⟩ := h
  exact ⟨h₁, h₂, h₃, h₄, h₅, h₆⟩

theorem SameFrame.trans {a b c : Conn σ δ} (h : SameFrame a b) (h' : SameFrame b c) :
    SameFrame a c :=
  ⟨h'.recv.trans h.recv, h'.remaining.trans h.remaining, h'.fin.trans h.fin, h'.mask.trans h.mask,
    h'.maskKey.trans h.maskKey, h'.maskOff.trans h.maskOff⟩

theorem SameFrame.of_msg (c : Conn σ δ) (m : MsgState) : SameFrame c { c with msg := m } :=
  .of_fields rfl

theorem SameFrame.of_frag (c : Conn σ δ) (b : Bytes) : SameFrame c { c with frag := b } :=
  .of_fields rfl

-- The frame, the message state and frag_buf.
structure SameBuf (c c' : Conn σ δ) : Prop extends SameFrame c c' where
  msg : c'.msg = c.msg
  frag : c'.frag = c.frag

theorem SameBuf.refl (c : Conn σ δ) : SameBuf c c := ⟨SameFrame.refl c, rfl, rfl⟩

theorem SameBuf.of_fields {c c' : Conn σ δ}
    (h : (c'.recv, c'.streamRemaining, c'.streamFin, c'.streamMask, c'.streamMaskKey,
      c'.streamMaskOff, c'.msg, c'.frag) = (c.recv, c.streamRemaining, c.streamFin, c.streamMask,
      c.streamMaskKey, c.streamMaskOff, c.msg, c.frag)) : SameBuf c c' := by
  simp only [Prod.mk.injEq] at h
  obtain ⟨h₁, h₂, h₃, h₄, h₅, h₆, h₇, h₈⟩ := h
  exact ⟨⟨h₁, h₂, h₃, h₄, h₅, h₆⟩, h₇, h₈⟩

theorem SameBuf.trans {a b c : Conn σ δ} (h : SameBuf a b) (h' : SameBuf b c) : SameBuf a c :=
  ⟨h.toSameFrame.trans h'.toSameFrame, h'.msg.trans h.msg, h'.frag.trans h.frag⟩

theorem SameRx.sameBuf {c c' : Conn σ δ} (h : SameRx c c') : SameBuf c c' :=
  ⟨⟨h.recv, h.remaining, h.fin, h.mask, h.maskKey, h.maskOff⟩, h.msg, h.frag⟩

theorem message_sameBuf {env : Env σ δ} (hg : env.Gentle) (hm : env.onMessage.isSome = true)
    (site : Site) (data : Bytes) (isBin fin : Bool) (total : Nat) {c : Conn σ δ}
    (hd : c.destroyed = false) : SameBuf c (message env site data isBin fin total c) :=
  have h := (message_aside hg hm site data isBin fin total hd).rx.sameBuf
  ⟨⟨h.recv, h.remaining, h.fin, h.mask, h.maskKey, h.maskOff⟩, h.msg, h.frag⟩

end Conn

end Sevent.Ws
