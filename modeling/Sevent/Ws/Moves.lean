import Mathlib.Logic.Relation
import Sevent.Trace
import Sevent.Ws.Conn

-- The calls of the user as runs of a few small moves. An invariant of every move is kept by every
-- call and by every callback, however the callbacks nest.
namespace Sevent.Ws

open Sevent.Stream (WriteRes)

variable {σ δ : Type}

-- ---- what a log says ----

def Opened (log : List Event) : Prop := Event.state .opened ∈ log

-- on_close, on_error and the user's own close.
def Event.terminal : Event → Bool
  | .onClose _ _ => true
  | .onError _ => true
  | .closeCall => true
  | _ => false

def Terminated (log : List Event) : Prop := ∃ e ∈ log, e.terminal = true

-- Frames have been read on a connection that had not been OPEN.
def Early : List Event → Prop :=
  Trace.Somewhere fun past e => e = .frameData ∧ ¬ Opened past

def Entered (log : List Event) : Prop := Opened log ∨ Early log

def Event.tornClose : Event → Bool
  | .frameOut opcode _ res => opcode == Opcode.close && res.tears
  | _ => false

-- The CLOSE frame that ws_fatal sends after leaving OPEN has torn the stream down.
def FatalTorn : List Event → Prop :=
  Trace.Somewhere fun past e =>
    e.tornClose = true ∧ [Event.state .closing, .alloc true] <:+ past

-- Events that no invariant looks at.
def Event.plain : Event → Bool
  | .alloc _ => true
  | .returned _ => true
  | .destroyCall => true
  | .messageReturned _ _ => true
  | .nullMessage => true
  | .dataFrame _ _ _ _ => true
  | .streamFrame _ _ => true
  | .fragFlush _ _ _ => true
  | .closeCode _ _ => true
  | .openReturned => true
  | .onHttpResponse _ _ _ => true
  | _ => false

instance decidableOpened (log : List Event) : Decidable (Opened log) :=
  inferInstanceAs (Decidable (Event.state .opened ∈ log))

instance decidableTerminated (log : List Event) : Decidable (Terminated log) :=
  inferInstanceAs (Decidable (∃ e ∈ log, e.terminal = true))

instance decidableFatalTorn (log : List Event) : Decidable (FatalTorn log) :=
  inferInstanceAs (Decidable (Trace.Somewhere _ log))

section

variable {log log' : List Event} (h : log <+: log')

include h

theorem Opened.mono (ho : Opened log) : Opened log' := h.subset ho

theorem Terminated.mono (ht : Terminated log) : Terminated log' := by
  obtain ⟨e, he, ht⟩ := ht
  exact ⟨e, h.subset he, ht⟩

theorem Entered.mono (he : Entered log) : Entered log' :=
  he.imp (Opened.mono h) (Trace.Somewhere.mono h)

end

namespace Conn

-- ---- the moves ----

-- CLOSED, with timer and socket released.
def shut (c : Conn σ δ) : Conn σ δ := ((c.setState .closed).timerStop).closeSocket

def written (e : Event) (res : WriteRes) (c : Conn σ δ) : Conn σ δ :=
  { c with stream := if res.tears then .idle else c.stream, log := c.log ++ [e] }

-- When a frame may be on its way to the stream.
def Sends (c : Conn σ δ) (opcode : Nat) : Prop :=
  c.state = .opened ∨ c.state = .closing ∧ (opcode = Opcode.ping ∨ Entered c.log)

inductive Move (env : Env σ δ) : Conn σ δ → Conn σ δ → Prop
  | note (c : Conn σ δ) (e : Event) (he : e.plain = true) : Move env c (c.emit e)
  | seed (c : Conn σ δ) (seed : UInt32) : Move env c { c with maskSeed := seed }
  | compressor (c : Conn σ δ) (df : Deflate σ δ) (d : δ) (hd : c.deflate = some df) :
      Move env c { c with deflate := some { df with deflate := d } }
  | frame (c : Conn σ δ) (opcode : Nat) (data : Bytes) (res : WriteRes)
      (hs : c.stream = .opened) (ho : c.Sends opcode) :
      Move env c (c.written (.frameOut opcode data res) res)
  | ended (c : Conn σ δ) (n : Notice) (hg : c.gone = false ∨ FatalTorn c.log) :
      Move env c (notifyNested env n c.shut)
  | leave (c : Conn σ δ) (ho : c.state = .opened) : Move env c (c.setState .closing)
  | close (c : Conn σ δ) : Move env c c.close

abbrev Moves (env : Env σ δ) : Conn σ δ → Conn σ δ → Prop := Relation.ReflTransGen (Move env)

theorem timerStop_eq (c : Conn σ δ) :
    c.timerStop =
      { c with
        pingTimer := false
        log := c.log ++ if c.pingTimer then [.timerUnregister] else [] } := by
  unfold timerStop
  split
  · rfl
  · rename_i hp
    cases c
    simp_all

-- The events of a connection that shuts.
def shutEvents (c : Conn σ δ) : List Event :=
  .state .closed :: (if c.pingTimer then [.timerUnregister] else []) ++ [.streamClose]

theorem shut_eq (c : Conn σ δ) :
    c.shut =
      { c with
        state := .closed, pingTimer := false, stream := .idle
        log := c.log ++ shutEvents c } := by
  simp [shut, timerStop_eq, setState, closeSocket, shutEvents]

def closeEvents (c : Conn σ δ) : List Event :=
  .closeCall :: .state .closed :: .streamClose ::
    (if c.pingTimer then [.timerUnregister] else [])

theorem close_eq (c : Conn σ δ) :
    c.close =
      { c with
        state := .closed, destroyed := true, pingTimer := false, stream := .idle
        log := c.log ++ closeEvents c } := by
  simp [close, timerStop_eq, setState, closeSocket, emit, closeEvents]

def noticeEvents (env : Env σ δ) (n : Notice) : List Event :=
  if (noticeCallback env n).isSome then [n.event] else []

theorem notifyNested_eq (env : Env σ δ) (n : Notice) (c : Conn σ δ) :
    notifyNested env n c = { c with log := c.log ++ noticeEvents env n } := by
  unfold notifyNested noticeEvents
  cases noticeCallback env n <;> simp [emit]

theorem Move.log_grows {env : Env σ δ} {c c' : Conn σ δ} (h : Move env c c') : c.log <+: c'.log := by
  cases h with
  | note e he => exact List.prefix_append _ _
  | seed seed => exact List.prefix_rfl
  | compressor df d hd => exact List.prefix_rfl
  | frame opcode data res hs ho => exact List.prefix_append _ _
  | ended n hg =>
      rw [notifyNested_eq, shut_eq, List.append_assoc]
      exact List.prefix_append _ _
  | leave ho => exact List.prefix_append _ _
  | close =>
      rw [close_eq]
      exact List.prefix_append _ _

theorem Moves.log_grows {env : Env σ δ} {c c' : Conn σ δ} (h : Moves env c c') :
    c.log <+: c'.log := by
  induction h with
  | refl => exact List.prefix_rfl
  | tail _ hm ih => exact ih.trans hm.log_grows

-- ---- what the moves leave alone ----

-- The receiving side: buffers, message state and decompressor.
structure SameRx (c c' : Conn σ δ) : Prop where
  recv : c'.recv = c.recv
  msg : c'.msg = c.msg
  frag : c'.frag = c.frag
  remaining : c'.streamRemaining = c.streamRemaining
  fin : c'.streamFin = c.streamFin
  mask : c'.streamMask = c.streamMask
  maskKey : c'.streamMaskKey = c.streamMaskKey
  maskOff : c'.streamMaskOff = c.streamMaskOff
  inflate : c'.deflate.map (fun df => (df.inflate, df.serverNoContextTakeover)) =
    c.deflate.map fun df => (df.inflate, df.serverNoContextTakeover)
  key : c'.secWsKey = c.secWsKey

theorem SameRx.refl (c : Conn σ δ) : SameRx c c := by
  constructor <;> rfl

theorem SameRx.trans {a b c : Conn σ δ} (h : SameRx a b) (h' : SameRx b c) : SameRx a c :=
  ⟨h'.recv.trans h.recv, h'.msg.trans h.msg, h'.frag.trans h.frag, h'.remaining.trans h.remaining,
    h'.fin.trans h.fin, h'.mask.trans h.mask, h'.maskKey.trans h.maskKey,
    h'.maskOff.trans h.maskOff, h'.inflate.trans h.inflate, h'.key.trans h.key⟩

theorem Move.sameRx {env : Env σ δ} {c c' : Conn σ δ} (h : Move env c c') : SameRx c c' := by
  cases h with
  | note e he => constructor <;> rfl
  | seed seed => constructor <;> rfl
  | compressor df d hd => constructor <;> simp [hd]
  | frame opcode data res hs ho => constructor <;> rfl
  | ended n hg =>
      rw [notifyNested_eq, shut_eq]
      constructor <;> rfl
  | leave ho => constructor <;> rfl
  | close =>
      rw [close_eq]
      constructor <;> rfl

theorem Moves.sameRx {env : Env σ δ} {c c' : Conn σ δ} (h : Moves env c c') : SameRx c c' := by
  induction h with
  | refl => exact SameRx.refl c
  | tail _ hm ih => exact ih.trans hm.sameRx

-- CLOSED is left by no call.
theorem Moves.state_closed {env : Env σ δ} {c c' : Conn σ δ} (h : Moves env c c')
    (hc : c.state = .closed) : c'.state = .closed := by
  induction h with
  | refl => exact hc
  | tail _ hm ih =>
      cases hm with
      | note e he => exact ih
      | seed seed => exact ih
      | compressor df d hd => exact ih
      | frame opcode data res hs ho => exact ih
      | ended n hg => rw [notifyNested_eq, shut_eq]
      | leave ho => cases ih.symm.trans ho
      | close => rw [close_eq]

-- ---- the calls are moves ----

-- What a frame returns for what the stream has returned.
def sentCode (rc : Int) : Int :=
  if rc = Err.success then Err.success else if rc = Err.nomem then Err.nomem else Err.wsWrite

-- What the stream tells the connection before a write returns.
def settle (nt : Notice → Conn σ δ → Conn σ δ) : WriteRes → Conn σ δ → Conn σ δ
  | .failed err, c => onStreamError nt err c
  | .torn _, c => onStreamClose nt c
  | _, c => c

theorem streamWrite_eq (env : Env σ δ) (nt : Notice → Conn σ δ → Conn σ δ) (ev : WriteRes → Event)
    (c : Conn σ δ) (hs : c.stream = .opened) :
    streamWrite env nt ev c =
      ((env.write c.log).ret,
        settle nt (env.write c.log) (c.written (ev (env.write c.log)) (env.write c.log))) := by
  unfold streamWrite
  rw [if_neg (by simp [hs])]
  cases hw : env.write c.log <;> simp [settle, written, WriteRes.tears, emit]

section

variable {env : Env σ δ} {nt : Notice → Conn σ δ → Conn σ δ}
variable (hn : ∀ n c, Moves env (notifyNested env n c) (nt n c))

include hn

theorem fatalEnd_moves (err : Int) (c : Conn σ δ) (hg : c.gone = false ∨ FatalTorn c.log) :
    Moves env c (fatalEnd nt err c) :=
  Relation.ReflTransGen.head (Move.ended c (.error err) hg) (hn _ _)

theorem enterClosed_moves (code : Nat) (reason : Bytes) (c : Conn σ δ) :
    Moves env c (enterClosed nt code reason c) := by
  unfold enterClosed
  split
  · exact .refl
  · rename_i hg
    exact Relation.ReflTransGen.head (Move.ended c (.close code reason) (.inl (by simpa using hg)))
      (hn _ _)

theorem onStreamClose_moves (c : Conn σ δ) : Moves env c (onStreamClose nt c) := by
  unfold onStreamClose
  split
  · exact .refl
  · rename_i hg
    split
    · exact fatalEnd_moves hn _ c (.inl (by simpa using hg))
    · exact enterClosed_moves hn _ _ c

theorem onStreamError_moves (err : Int) (c : Conn σ δ) : Moves env c (onStreamError nt err c) := by
  unfold onStreamError
  split
  · exact .refl
  · rename_i hg
    split
    · exact fatalEnd_moves hn _ c (.inl (by simpa using hg))
    · split
      · exact fatalEnd_moves hn _ c (.inl (by simpa using hg))
      · exact enterClosed_moves hn _ _ c

theorem settle_moves (res : WriteRes) (c : Conn σ δ) : Moves env c (settle nt res c) := by
  cases res with
  | failed err => exact onStreamError_moves hn err c
  | torn accepted => exact onStreamClose_moves hn c
  | ok => exact .refl
  | nomem => exact .refl
  | inval => exact .refl

-- A stream that a write has torn down leaves the connection CLOSED.
theorem settle_gone (res : WriteRes) (c : Conn σ δ) (ht : res.tears = true) :
    (settle nt res c).gone = true := by
  have hfatal : ∀ err, (fatalEnd nt err c).gone = true := by
    intro err
    have hc : (notifyNested env (.error err) c.shut).state = .closed := by
      rw [notifyNested_eq, shut_eq]
    have hm := (hn (.error err) c.shut).state_closed hc
    unfold gone fatalEnd
    rw [show nt (.error err) (((c.setState .closed).timerStop).closeSocket) =
      nt (.error err) c.shut from rfl, hm]
    simp
  have henter : ∀ code reason, (enterClosed nt code reason c).gone = true := by
    intro code reason
    unfold enterClosed
    split
    · assumption
    · have hc : (notifyNested env (.close code reason) c.shut).state = .closed := by
        rw [notifyNested_eq, shut_eq]
      have hm := (hn (.close code reason) c.shut).state_closed hc
      unfold gone
      rw [show nt (.close code reason) (((c.setState .closed).timerStop).closeSocket) =
        nt (.close code reason) c.shut from rfl, hm]
      simp
  cases res with
  | failed err =>
      simp only [settle, onStreamError]
      split_ifs
      · assumption
      · exact hfatal _
      · exact hfatal _
      · exact henter _ _
  | torn accepted =>
      simp only [settle, onStreamClose]
      split_ifs
      · assumption
      · exact hfatal _
      · exact henter _ _
  | ok => cases ht
  | nomem => cases ht
  | inval => cases ht

omit hn in
-- The return codes of a frame say nothing about the connection.
theorem sent_eq (r : Int × Conn σ δ) :
    (if r.1 = Err.success then (Err.success, r.2)
      else if r.1 = Err.nomem then (Err.nomem, r.2) else (Err.wsWrite, r.2)) = (sentCode r.1, r.2) := by
  unfold sentCode
  split_ifs <;> rfl

omit hn in
variable (env nt) in
-- A frame is either refused before the stream sees it or written with some result.
theorem sendFrameRaw_result (opcode : Nat) (payload : Arg) (rsv1 : Bool) (c : Conn σ δ) :
    (∃ seed events, (events = [] ∨ ∃ ok, events = [Event.alloc ok]) ∧
      (sendFrameRaw env nt opcode payload rsv1 c).2 =
        { c with maskSeed := seed, log := c.log ++ events }) ∨
    ∃ seed data res, c.stream = .opened ∧
      (c.state = .opened ∨ c.state = .closing ∧
        (opcode = Opcode.ping ∨ opcode = Opcode.pong ∨ opcode = Opcode.close)) ∧
      sendFrameRaw env nt opcode payload rsv1 c =
        (sentCode res.ret, settle nt res
          (Conn.written (.frameOut opcode data res) res
            { c with maskSeed := seed, log := c.log ++ [.alloc true] })) := by
  unfold sendFrameRaw
  extract_lets isCtrl seed c₁ key
  have hc₁ : ∃ s, c₁ = { c with maskSeed := s } := by
    by_cases hcl : env.isClient
    · exact ⟨seed, by simp [c₁, hcl]⟩
    · exact ⟨c.maskSeed, by simp [c₁, hcl]⟩
  obtain ⟨s, hc₁⟩ := hc₁
  by_cases h1 : c.state = .closing ∧ !isCtrl
  · rw [if_pos h1]
    exact .inl ⟨c.maskSeed, [], .inl rfl, by simp⟩
  rw [if_neg h1]
  by_cases h2 : c.state ≠ .opened ∧ c.state ≠ .closing
  · rw [if_pos h2]
    exact .inl ⟨c.maskSeed, [], .inl rfl, by simp⟩
  rw [if_neg h2]
  cases hh : buildHeader true rsv1 opcode key payload.len with
  | none => exact .inl ⟨s, [], .inl rfl, by simp [hc₁]⟩
  | some hdr =>
      simp only [alloc]
      by_cases h3 : env.alloc c₁.log
      · simp only [h3, Bool.not_true, Bool.false_eq_true, if_false]
        by_cases h4 : isCtrl = true ∧ payload.len > 125
        · rw [if_pos h4]
          exact .inl ⟨s, [.alloc true], .inr ⟨true, rfl⟩, by simp [hc₁, emit]⟩
        rw [if_neg h4]
        by_cases h5 : opcode = Opcode.close ∧ payload.len ≥ 2 ∧
            !closeCodeValid (bigEndian ((payload.toOption.getD []).take 2))
        · rw [if_pos h5]
          exact .inl ⟨s, [.alloc true], .inr ⟨true, rfl⟩, by simp [hc₁, emit]⟩
        rw [if_neg h5]
        generalize hdr ++ _ = data
        by_cases hs : c.stream = .opened
        · refine .inr ⟨s, data, env.write (c.log ++ [.alloc true]), hs, ?_, ?_⟩
          rotate_left
          · rw [sent_eq, streamWrite_eq _ _ _ _ (by simpa [hc₁, emit] using hs)]
            simp only [hc₁, emit]
          · by_cases ho : c.state = .opened
            · exact .inl ho
            · have hcl : c.state = .closing := by
                by_contra hcl
                exact h2 ⟨ho, hcl⟩
              have hctrl : isCtrl = true := by
                cases hi : isCtrl with
                | true => rfl
                | false => exact absurd ⟨hcl, by simp [hi]⟩ h1
              simp only [isCtrl, Bool.or_eq_true, beq_iff_eq] at hctrl
              refine .inr ⟨hcl, ?_⟩
              tauto
        · refine .inl ⟨s, [.alloc true], .inr ⟨true, rfl⟩, ?_⟩
          rw [sent_eq]
          simp [hc₁, emit, streamWrite, hs]
      · have h3' : env.alloc c₁.log = false := by simpa using h3
        simp only [h3', Bool.not_false, if_true]
        exact .inl ⟨s, [.alloc false], .inr ⟨false, rfl⟩, by simp [hc₁, emit]⟩

omit hn in
variable (env nt) in
theorem sendFrameRaw_cases (opcode : Nat) (payload : Arg) (rsv1 : Bool) (c : Conn σ δ) :
    (∃ seed events, (events = [] ∨ ∃ ok, events = [Event.alloc ok]) ∧
      (sendFrameRaw env nt opcode payload rsv1 c).2 =
        { c with maskSeed := seed, log := c.log ++ events }) ∨
    ∃ seed data res, c.stream = .opened ∧
      (c.state = .opened ∨ c.state = .closing ∧
        (opcode = Opcode.ping ∨ opcode = Opcode.pong ∨ opcode = Opcode.close)) ∧
      (sendFrameRaw env nt opcode payload rsv1 c).2 =
        settle nt res
          (Conn.written (.frameOut opcode data res) res
            { c with maskSeed := seed, log := c.log ++ [.alloc true] }) :=
  (sendFrameRaw_result env nt opcode payload rsv1 c).imp_right
    fun ⟨seed, data, res, hs, ho, h⟩ => ⟨seed, data, res, hs, ho, congrArg Prod.snd h⟩

omit hn in
theorem seed_alloc_moves (c : Conn σ δ) (seed : UInt32) (events : List Event)
    (he : events = [] ∨ ∃ ok, events = [Event.alloc ok]) :
    Moves env c { c with maskSeed := seed, log := c.log ++ events } := by
  refine Relation.ReflTransGen.head (Move.seed c seed) ?_
  rcases he with rfl | ⟨ok, rfl⟩
  · simpa using Relation.ReflTransGen.refl
  · exact .single (Move.note _ (.alloc ok) rfl)

theorem sendFrameRaw_moves (opcode : Nat) (payload : Arg) (rsv1 : Bool) (c : Conn σ δ)
    (hc : c.state = .closing → opcode = Opcode.pong ∨ opcode = Opcode.close → Entered c.log) :
    Moves env c (sendFrameRaw env nt opcode payload rsv1 c).2 := by
  rcases sendFrameRaw_cases env nt opcode payload rsv1 c with
    ⟨seed, events, he, h⟩ | ⟨seed, data, res, hs, ho, h⟩
  · rw [h]
    exact seed_alloc_moves c seed events he
  · rw [h]
    refine (seed_alloc_moves c seed [.alloc true] (.inr ⟨true, rfl⟩)).trans ?_
    refine Relation.ReflTransGen.head (Move.frame _ opcode data res hs ?_) (settle_moves hn res _)
    rcases ho with ho | ⟨hcl, hp | hop⟩
    · exact .inl ho
    · exact .inr ⟨hcl, .inl hp⟩
    · exact .inr ⟨hcl, .inr ((hc hcl hop).mono (List.prefix_append _ _))⟩

-- Sending keeps the state of the connection or ends it.
theorem sendFrameRaw_state (opcode : Nat) (payload : Arg) (rsv1 : Bool) (c : Conn σ δ) :
    (sendFrameRaw env nt opcode payload rsv1 c).2.gone = true ∨
      (sendFrameRaw env nt opcode payload rsv1 c).2.state = c.state := by
  rcases sendFrameRaw_cases env nt opcode payload rsv1 c with
    ⟨seed, events, he, h⟩ | ⟨seed, data, res, hs, ho, h⟩
  · rw [h]
    exact .inr rfl
  · rw [h]
    by_cases ht : res.tears = true
    · exact .inl (settle_gone hn res _ ht)
    · cases res <;> simp_all [WriteRes.tears, settle, written]

-- The CLOSE frame of ws_fatal: the connection goes on unless the write has torn the stream.
theorem sendFrame_close_guard (payload : Arg) (c : Conn σ δ) (hg : c.gone = false) :
    let c' := (sendFrame env nt Opcode.close payload (c.setState .closing)).2
    c'.gone = false ∨ FatalTorn c'.log := by
  intro c'
  have hd : c.destroyed = false := by
    simp only [gone, Bool.or_eq_false_iff] at hg
    exact hg.1
  rcases sendFrameRaw_cases env nt Opcode.close payload false (c.setState .closing)
    with ⟨seed, events, he, h⟩ | ⟨seed, data, res, hs, ho, h⟩
  · left
    simp only [c', sendFrame, h]
    simp [gone, setState, hd]
  · by_cases ht : res.tears = true
    · right
      simp only [c', sendFrame, h]
      refine Trace.Somewhere.mono (settle_moves hn res _).log_grows
        ⟨c.log ++ [.state .closing, .alloc true], .frameOut Opcode.close data res, ?_, ?_, ?_⟩
      · simp [written, setState]
      · simp [Event.tornClose, ht]
      · exact List.suffix_append _ _
    · left
      simp only [c', sendFrame, h]
      cases res <;> simp_all [WriteRes.tears, settle, written, gone, setState]

theorem fatal_moves (err : Int) (c : Conn σ δ)
    (ho : err = Err.wsProtocol → c.state = .opened → Opened c.log) :
    Moves env c (fatal env nt err c) := by
  unfold fatal
  split
  · exact .refl
  · rename_i hg
    have hg : c.gone = false := by simpa using hg
    dsimp only
    split
    · rename_i hp
      have hlog : Opened (c.setState .closing).log := (ho hp.1 hp.2).mono (List.prefix_append _ _)
      refine Relation.ReflTransGen.head (Move.leave c hp.2) ?_
      refine (sendFrameRaw_moves hn Opcode.close (.bytes (beCode 1002)) false _
        fun _ _ => .inl hlog).trans ?_
      exact fatalEnd_moves hn err _ (sendFrame_close_guard hn _ c hg)
    · exact fatalEnd_moves hn err c (.inl hg)

theorem sendCloseCode_moves (code : Nat) (c : Conn σ δ) (he : Entered c.log) :
    Moves env c (sendCloseCode env nt code c) :=
  .head (Move.note c (.closeCode code c.state) rfl)
    ((sendFrameRaw_moves hn Opcode.close _ false _ fun _ _ => he.mono (List.prefix_append _ _)).trans
      (enterClosed_moves hn _ _ _))

theorem failWrite_moves (r : Int × Conn σ δ) : Moves env r.2 (failWrite env nt r).2 := by
  unfold failWrite
  split
  · exact fatal_moves hn Err.wsWrite r.2 fun h => by cases h
  · exact .refl

omit hn in
-- Only the compressor's own state changes.
theorem compress_deflate (z : Zlib σ δ) (df : Deflate σ δ) (input : Option Bytes) (cap : Nat) :
    ∃ d, (compress z df input cap).2 = { df with deflate := d } := by
  unfold compress
  cases input with
  | none => exact ⟨df.deflate, rfl⟩
  | some input =>
      dsimp only
      split_ifs
      · exact ⟨df.deflate, rfl⟩
      · exact ⟨_, rfl⟩
      · exact ⟨_, rfl⟩
      · exact ⟨_, rfl⟩

theorem sendMessage_moves (opcode : Nat) (payload : Arg) (c : Conn σ δ)
    (hop : opcode = Opcode.text ∨ opcode = Opcode.binary) :
    Moves env c (sendMessage env nt opcode payload c).2 := by
  have hraw : ∀ payload rsv1 c, Moves env c (sendFrameRaw env nt opcode payload rsv1 c).2 := by
    intro payload rsv1 c
    refine sendFrameRaw_moves hn opcode payload rsv1 c fun _ h => ?_
    rcases hop with rfl | rfl <;> rcases h with h | h <;> cases h
  unfold sendMessage
  cases hd : c.deflate with
  | none => exact hraw payload false c
  | some df =>
      dsimp only
      split
      · exact hraw payload false c
      · have halloc : Moves env c (c.emit (.alloc (env.alloc c.log))) := .single (Move.note c _ rfl)
        split
        · exact halloc
        · obtain ⟨d, hcomp⟩ := compress_deflate env.zlib df payload.toOption
            (compressMaxlen env.zlib df payload.len)
          have hmove := halloc.tail (Move.compressor _ df d hd)
          rw [← hcomp] at hmove
          split
          · exact hmove
          · exact hmove.trans (hraw _ true _)

theorem ping_moves (payload : Arg) (c : Conn σ δ) : Moves env c (ping env nt payload c).2 := by
  unfold ping
  split
  · exact .refl
  · refine (sendFrameRaw_moves hn Opcode.ping payload false c fun _ h => ?_).trans
      (failWrite_moves hn _)
    rcases h with h | h <;> cases h

theorem sendText_moves (data : Arg) (c : Conn σ δ) : Moves env c (sendText env nt data c).2 := by
  have hsend := (sendMessage_moves hn Opcode.text data c (.inl rfl)).trans (failWrite_moves hn _)
  unfold sendText
  split
  · exact .refl
  · exact hsend
  · split
    · exact .refl
    · exact hsend

theorem sendBinary_moves (data : Arg) (c : Conn σ δ) : Moves env c (sendBinary env nt data c).2 := by
  unfold sendBinary
  split
  · exact .refl
  · exact (sendMessage_moves hn Opcode.binary data c (.inr rfl)).trans (failWrite_moves hn _)

theorem shutdown_moves (code : Nat) (reason : Option Bytes) (c : Conn σ δ) :
    Moves env c (shutdown env nt code reason c).2 := by
  unfold shutdown
  split
  · exact .refl
  · rename_i ho
    have ho : c.state = .opened := by simpa using ho
    dsimp only
    generalize hp : Arg.bytes (beCode code ++ (cString (reason.getD [])).take 123) = payload
    have hsend : Moves env c (sendFrame env nt Opcode.close payload c).2 :=
      sendFrameRaw_moves hn Opcode.close payload false c fun hc => by cases ho.symm.trans hc
    have hstate := sendFrameRaw_state hn Opcode.close payload false c
    refine Relation.ReflTransGen.trans ?_ (failWrite_moves hn _)
    dsimp only
    split
    · rename_i h
      refine hsend.tail (Move.leave _ ?_)
      rcases hstate with hg | hs
      · exact absurd hg (by simpa [sendFrame] using h.2)
      · exact hs.trans ho
    · exact hsend

theorem call_moves (a : Api) (c : Conn σ δ) : Moves env c (call env nt a c) := by
  unfold call
  refine Relation.ReflTransGen.tail ?_ (Move.note _ (.returned _) rfl)
  cases a with
  | sendText data => exact sendText_moves hn data c
  | sendBinary data => exact sendBinary_moves hn data c
  | ping payload => exact ping_moves hn payload c
  | shutdown code reason => exact shutdown_moves hn code reason c
  | close => exact .single (Move.close c)
  | destroy => exact (Relation.ReflTransGen.single (Move.close c)).tail (Move.note _ .destroyCall rfl)

theorem calls_moves (script : List Api) (c : Conn σ δ) : Moves env c (calls env nt script c) := by
  induction script generalizing c with
  | nil => exact .refl
  | cons a rest ih => exact (call_moves hn a c).trans (ih _)

end

theorem notify_moves (env : Env σ δ) (n : Notice) (c : Conn σ δ) :
    Moves env (notifyNested env n c) (notify env n c) := by
  unfold notify notifyNested
  cases noticeCallback env n with
  | none => exact .refl
  | some cb => exact calls_moves (fun _ _ => .refl) _ _

theorem callback_moves (env : Env σ δ) (cb : List Event → List Api) (e : Event) (c : Conn σ δ) :
    Moves env (c.emit e) (callback env (some cb) e c) :=
  calls_moves (notify_moves env) _ _

end Conn

end Sevent.Ws
