import Sevent.Ws.Codec
import Sevent.Ws.Steps

-- The frames that the calls of the user write, and what a peer reads in them.
namespace Sevent.Ws

open Sevent.Stream (WriteRes)

variable {σ δ : Type}

-- ---- the bytes of a frame ----

def frameBytes (isClient : Bool) (key : MaskKey) (opcode : Nat) (payload : Bytes) : Bytes :=
  (buildHeader true false opcode (if isClient then some key else none) payload.length).getD [] ++
    if isClient then applyMask key payload else payload

-- A receiver finds one frame in the bytes, from a sender of this role.
def ReadAs (isClient : Bool) (opcode : Nat) (payload sent : Bytes) : Prop :=
  ∃ hdr n, parseHeader sent = .complete hdr n ∧ sent.length = n + hdr.payloadLen ∧
    hdr.fin = true ∧ hdr.rsv1 = false ∧ hdr.rsv2 = false ∧ hdr.rsv3 = false ∧
    hdr.opcode = opcode ∧ hdr.mask = isClient ∧
    (if hdr.mask then applyMask hdr.maskKey (sent.drop n) else sent.drop n) = payload

theorem ReadAs.unique {isClient isClient' : Bool} {opcode opcode' : Nat} {payload payload' sent : Bytes}
    (h : ReadAs isClient opcode payload sent) (h' : ReadAs isClient' opcode' payload' sent) :
    payload = payload' := by
  obtain ⟨hdr, n, hparse, -, -, -, -, -, -, -, hpayload⟩ := h
  obtain ⟨hdr', n', hparse', -, -, -, -, -, -, -, hpayload'⟩ := h'
  cases hparse.symm.trans hparse'
  exact hpayload.symm.trans hpayload'

theorem frameBytes_readAs (isClient : Bool) (key : MaskKey) {opcode : Nat} {payload : Bytes}
    (hop : opcode < 16) (hlen : payload.length < 9223372036854775808) :
    ReadAs isClient opcode payload (frameBytes isClient key opcode payload) := by
  let f : WireFrame := ⟨true, false, opcode, if isClient then some key else none, payload, hop, hlen⟩
  have hbytes : frameBytes isClient key opcode payload = f.head ++ f.body := by
    cases isClient <;> rfl
  refine ⟨f.header, f.head.length, ?_, ?_, rfl, rfl, rfl, rfl, rfl, ?_, ?_⟩
  · rw [hbytes, f.parseHeader_head]
  · rw [hbytes, List.length_append, f.body_length]
    rfl
  · cases isClient <;> rfl
  · rw [hbytes, List.drop_left]
    cases isClient with
    | false => rfl
    | true => exact applyMaskOffset_self key 0 payload

-- ---- the calls that send one frame ----

inductive Sender where
  | text | binary | ping
  deriving DecidableEq, Repr

def Sender.opcode : Sender → Nat
  | .text => Opcode.text
  | .binary => Opcode.binary
  | .ping => Opcode.ping

def Sender.send (env : Env σ δ) (nt : Notice → Conn σ δ → Conn σ δ) :
    Sender → Arg → Conn σ δ → Int × Conn σ δ
  | .text => Conn.sendText env nt
  | .binary => Conn.sendBinary env nt
  | .ping => Conn.ping env nt

-- NULL with a length that is not 0 supplies no bytes.
def Arg.supplied : Arg → Option Bytes
  | .bytes b => some b
  | .null 0 => some []
  | .null (_ + 1) => none

theorem Sender.opcode_lt (s : Sender) : s.opcode < 16 := by
  cases s <;> decide

-- sevent_ws_ping checks the length of its payload and not the pointer.
def Sender.skipsCopy : Sender → Arg → Bool
  | .ping, .null n => 0 < n && n ≤ 125
  | _, _ => false

-- ---- what has been passed to the stream ----

def Event.out : Event → Option Bytes
  | .frameOut _ data _ => some data
  | .requestOut _ data _ => some data
  | .upgradeOut data _ => some data
  | .refusalOut data _ => some data
  | _ => none

def outs (log : List Event) : List Bytes := log.filterMap Event.out

theorem outs_append (log events : List Event) : outs (log ++ events) = outs log ++ outs events :=
  List.filterMap_append

theorem outs_plain {e : Event} (h : e.plain = true) : outs [e] = [] := by
  cases e <;> first | rfl | cases h

theorem outs_notice (env : Env σ δ) (n : Notice) : outs (Conn.noticeEvents env n) = [] := by
  unfold Conn.noticeEvents
  split
  · cases n <;> rfl
  · rfl

theorem outs_shut (c : Conn σ δ) : outs c.shutEvents = [] := by
  unfold Conn.shutEvents
  split <;> rfl

theorem outs_close (c : Conn σ δ) : outs c.closeEvents = [] := by
  unfold Conn.closeEvents
  split <;> rfl

namespace Conn

variable {env : Env σ δ}

-- A connection that is CLOSED writes nothing.
theorem Moves.outs_closed {c c' : Conn σ δ} (hm : Moves env c c') (hc : c.state = .closed) :
    outs c'.log = outs c.log := by
  induction hm with
  | refl => rfl
  | tail hms hm ih =>
      have hs := Moves.state_closed hms hc
      cases hm with
      | note e he => rw [emit, outs_append, outs_plain he, List.append_nil, ih]
      | seed seed => exact ih
      | compressor df d hd => exact ih
      | frame opcode data res hst ho =>
          rcases ho with ho | ⟨ho, -⟩
          · cases hs.symm.trans ho
          · cases hs.symm.trans ho
      | ended n hg =>
          rw [notifyNested_eq, shut_eq, outs_append, outs_append, outs_notice, outs_shut,
            List.append_nil, List.append_nil, ih]
      | leave ho => cases hs.symm.trans ho
      | close => rw [close_eq, outs_append, outs_close, List.append_nil, ih]

-- Neither does one that is about to be.
theorem notify_outs (env : Env σ δ) (n : Notice) (c : Conn σ δ) :
    outs (notify env n c.shut).log = outs c.log := by
  have hc : (notifyNested env n c.shut).state = .closed := by rw [notifyNested_eq, shut_eq]
  rw [(notify_moves env n c.shut).outs_closed hc, notifyNested_eq, shut_eq, outs_append,
    outs_append, outs_notice, outs_shut, List.append_nil, List.append_nil]

theorem enterClosed_outs (code : Nat) (reason : Bytes) (c : Conn σ δ) :
    outs (enterClosed (notify env) code reason c).log = outs c.log := by
  unfold enterClosed
  split
  · rfl
  · exact notify_outs env (.close code reason) c

theorem fatalEnd_outs (err : Int) (c : Conn σ δ) :
    outs (fatalEnd (notify env) err c).log = outs c.log :=
  notify_outs env (.error err) c

theorem settle_outs (res : WriteRes) (c : Conn σ δ) :
    outs (settle (notify env) res c).log = outs c.log := by
  cases res with
  | failed err =>
      simp only [settle, onStreamError]
      split_ifs
      · rfl
      · exact fatalEnd_outs _ c
      · exact fatalEnd_outs _ c
      · exact enterClosed_outs _ _ c
  | torn accepted =>
      simp only [settle, onStreamClose]
      split_ifs
      · rfl
      · exact fatalEnd_outs _ c
      · exact enterClosed_outs _ _ c
  | ok => rfl
  | nomem => rfl
  | inval => rfl

-- ---- a frame that is sent ----

-- What follows the header: a NULL payload is not copied, and what malloc returned is sent.
def bodyOf (env : Env σ δ) (log : List Event) (key : MaskKey) : Arg → Bytes
  | .bytes b => if env.isClient then applyMask key b else b
  | .null n => (List.range n).map (env.uninit log)

def nextKey (c : Conn σ δ) : MaskKey := maskKeyOf (xorshift32 c.maskSeed)

def isCtrl (opcode : Nat) : Bool :=
  opcode == Opcode.ping || opcode == Opcode.pong || opcode == Opcode.close

section

variable {nt : Notice → Conn σ δ → Conn σ δ} {opcode : Nat} {payload : Arg} {c : Conn σ δ}

-- The memory is there and the checks of the source are passed.
def Built (env : Env σ δ) (opcode : Nat) (payload : Arg) (c : Conn σ δ) : Prop :=
  env.alloc c.log = true ∧ (isCtrl opcode = true → payload.len ≤ 125) ∧
  (opcode = Opcode.close → 2 ≤ payload.len →
    closeCodeValid (bigEndian ((payload.toOption.getD []).take 2)) = true)

variable (nt) in
theorem sendFrameRaw_built (ho : c.state = .opened) (hop : opcode < 16)
    (hb : Built env opcode payload c) :
    ∃ head seed, buildHeader true false opcode (if env.isClient then some c.nextKey else none)
        payload.len = some head ∧
      sendFrameRaw env nt opcode payload false c =
        let r := streamWrite env nt
          (.frameOut opcode (head ++ bodyOf env (c.log ++ [.alloc true]) c.nextKey payload))
          { c with maskSeed := seed, log := c.log ++ [.alloc true] }
        (sentCode r.1, r.2) := by
  obtain ⟨halloc, hctrl, hcode⟩ := hb
  refine ⟨_, if env.isClient then xorshift32 c.maskSeed else c.maskSeed,
    buildHeader_eq true false opcode _ payload.len hop, ?_⟩
  have hctrl : ¬ (isCtrl opcode = true ∧ payload.len > 125) := fun h =>
    Nat.not_lt.mpr (hctrl h.1) h.2
  have hcode : ¬ (opcode = Opcode.close ∧ payload.len ≥ 2 ∧
      (!closeCodeValid (bigEndian ((payload.toOption.getD []).take 2))) = true) := fun h => by
    rw [hcode h.1 h.2.1] at h
    exact absurd h.2.2 (by decide)
  unfold sendFrameRaw
  dsimp only
  rw [if_neg (by simp [ho]), if_neg (by simp [ho])]
  cases hcl : env.isClient with
  | false =>
      simp only [Bool.false_eq_true, if_false]
      rw [buildHeader_eq true false opcode none payload.len hop]
      simp only [alloc, emit, halloc, Bool.not_true, Bool.false_eq_true, if_false]
      rw [← isCtrl, if_neg hctrl, if_neg hcode, sent_eq]
      cases payload <;> simp [bodyOf, hcl]
  | true =>
      simp only [if_true]
      rw [buildHeader_eq true false opcode (some (maskKeyOf (xorshift32 c.maskSeed))) payload.len hop]
      simp only [alloc, emit, halloc, Bool.not_true, Bool.false_eq_true, if_false]
      rw [← isCtrl, if_neg hctrl, if_neg hcode, sent_eq]
      cases payload <;> simp [bodyOf, hcl, nextKey]

variable (nt) in
theorem sendFrameRaw_unbuilt (ho : c.state = .opened) (hop : opcode < 16)
    (hb : ¬ Built env opcode payload c) :
    (sendFrameRaw env nt opcode payload false c).1 =
        (if env.alloc c.log then Err.inval else Err.nomem) ∧
      outs (sendFrameRaw env nt opcode payload false c).2.log = outs c.log := by
  have hlog : ∀ ok, outs (c.log ++ [.alloc ok]) = outs c.log := fun ok => by
    rw [outs_append, outs_plain rfl, List.append_nil]
  have hseed : ∃ seed, (if env.isClient then { c with maskSeed := xorshift32 c.maskSeed } else c) =
      { c with maskSeed := seed } := by
    cases env.isClient
    · exact ⟨c.maskSeed, rfl⟩
    · exact ⟨xorshift32 c.maskSeed, rfl⟩
  obtain ⟨seed, hseed⟩ := hseed
  unfold sendFrameRaw
  dsimp only
  rw [if_neg (by simp [ho]), if_neg (by simp [ho]), hseed, buildHeader_eq true false opcode _ _ hop]
  cases halloc : env.alloc c.log with
  | false => simp [alloc, emit, halloc, hlog]
  | true =>
      simp only [alloc, emit, halloc, Bool.not_true, Bool.false_eq_true, if_false, if_true]
      rw [← isCtrl]
      by_cases hctrl : isCtrl opcode = true ∧ payload.len > 125
      · rw [if_pos hctrl]
        exact ⟨rfl, hlog true⟩
      rw [if_neg hctrl, if_pos]
      · exact ⟨rfl, hlog true⟩
      by_contra hcode
      refine hb ⟨halloc, fun h => ?_, fun h hlen => ?_⟩
      · by_contra hlen
        exact hctrl ⟨h, by omega⟩
      · by_contra hv
        exact hcode ⟨h, hlen, by simpa using hv⟩

-- What a frame that was sent has passed to the stream.
theorem sendFrameRaw_sent (ho : c.state = .opened) (hop : opcode < 16)
    (hok : (sendFrameRaw env (notify env) opcode payload false c).1 = Err.success) :
    Built env opcode payload c ∧
      ∃ head, buildHeader true false opcode (if env.isClient then some c.nextKey else none)
          payload.len = some head ∧
        outs (sendFrameRaw env (notify env) opcode payload false c).2.log =
          outs c.log ++ [head ++ bodyOf env (c.log ++ [.alloc true]) c.nextKey payload] := by
  by_cases hb : Built env opcode payload c
  · obtain ⟨head, seed, hhead, heq⟩ := sendFrameRaw_built (notify env) ho hop hb
    refine ⟨hb, head, hhead, ?_⟩
    have hs : c.stream = .opened := by
      by_contra hs
      rw [heq, streamWrite, if_pos hs] at hok
      cases hok
    rw [heq, streamWrite_eq _ _ _ _ (by exact hs)]
    dsimp only
    rw [settle_outs]
    rw [written, List.append_assoc, outs_append]
    rfl
  · obtain ⟨hrc, -⟩ := sendFrameRaw_unbuilt (notify env) ho hop hb
    rw [hrc] at hok
    split at hok <;> cases hok

end

def Uncompressed (env : Env σ δ) (c : Conn σ δ) : Prop := c.deflate = none ∨ env.deflateLevel = levelNone

-- The frame of a call that succeeds is what was asked for, and NULL with a length is rejected.
def Faithful (env : Env σ δ) (c : Conn σ δ) (s : Sender) (data : Arg) : Prop :=
  let r := s.send env (notify env) data c
  (r.1 = Err.success → ∃ payload, data.supplied = some payload ∧
    outs r.2.log = outs c.log ++ [frameBytes env.isClient c.nextKey s.opcode payload] ∧
    ReadAs env.isClient s.opcode payload (frameBytes env.isClient c.nextKey s.opcode payload)) ∧
  (data.supplied = none → r.1 = Err.inval ∧ outs r.2.log = outs c.log)

theorem failWrite_success {nt : Notice → Conn σ δ → Conn σ δ} {r : Int × Conn σ δ}
    (h : (failWrite env nt r).1 = Err.success) : failWrite env nt r = r ∧ r.1 = Err.success := by
  unfold failWrite at h ⊢
  split at h
  · rename_i hw
    cases hw.symm.trans h
  · rename_i hw
    exact ⟨if_neg hw, h⟩

theorem sendMessage_uncompressed {nt : Notice → Conn σ δ → Conn σ δ} {c : Conn σ δ}
    (hu : Uncompressed env c) (opcode : Nat) (payload : Arg) :
    sendMessage env nt opcode payload c = sendFrameRaw env nt opcode payload false c := by
  unfold sendMessage
  cases hd : c.deflate with
  | none => rfl
  | some df =>
      dsimp only
      rw [if_pos]
      · rfl
      · rcases hu with hu | hu
        · cases hd.symm.trans hu
        · exact .inl hu

-- A call either stops at a check on its arguments or is one frame.
theorem send_cases (nt : Notice → Conn σ δ → Conn σ δ) {c : Conn σ δ}
    (hu : Uncompressed env c) (s : Sender) (data : Arg) :
    s.send env nt data c = (Err.inval, c) ∨
      (data.supplied ≠ none ∨ s.skipsCopy data = true) ∧
        s.send env nt data c = failWrite env nt (sendFrameRaw env nt s.opcode data false c) := by
  cases s with
  | text =>
      cases data with
      | null n =>
          cases n with
          | zero =>
              refine .inr ⟨.inl (by decide), ?_⟩
              exact congrArg (failWrite env nt) (sendMessage_uncompressed hu _ _)
          | succ n => exact .inl rfl
      | bytes b =>
          simp only [Sender.send, sendText]
          split
          · exact .inl rfl
          · exact .inr ⟨.inl (Option.some_ne_none b), congrArg (failWrite env nt) (sendMessage_uncompressed hu _ _)⟩
  | binary =>
      cases data with
      | null n =>
          cases n with
          | zero =>
              refine .inr ⟨.inl (by decide), ?_⟩
              exact congrArg (failWrite env nt) (sendMessage_uncompressed hu _ _)
          | succ n => exact .inl rfl
      | bytes b =>
          exact .inr ⟨.inl (Option.some_ne_none b), congrArg (failWrite env nt) (sendMessage_uncompressed hu _ _)⟩
  | ping =>
      simp only [Sender.send, Conn.ping]
      split
      · exact .inl rfl
      · rename_i hlen
        refine .inr ⟨?_, rfl⟩
        cases data with
        | null n =>
            cases n with
            | zero => exact .inl (by decide)
            | succ n => exact .inr (by simp [Arg.len] at hlen; simp [Sender.skipsCopy]; omega)
        | bytes b => exact .inl (Option.some_ne_none b)

theorem failWrite_rc {nt : Notice → Conn σ δ → Conn σ δ} (r : Int × Conn σ δ) :
    (failWrite env nt r).1 = r.1 := by
  unfold failWrite
  split <;> rfl

theorem sentCode_ne (rc : Int) : sentCode rc ≠ Err.inval := by
  unfold sentCode
  split_ifs <;> decide

-- Nothing stops a PING whose payload is NULL.
theorem skipsCopy_accepted (env : Env σ δ) (nt : Notice → Conn σ δ → Conn σ δ) {c : Conn σ δ}
    {s : Sender} {data : Arg}
    (ho : c.state = .opened) (hskip : s.skipsCopy data = true) :
    data.supplied = none ∧ (s.send env nt data c).1 ≠ Err.inval := by
  cases s with
  | text => cases hskip
  | binary => cases hskip
  | ping =>
      cases data with
      | bytes b => cases hskip
      | null n =>
          simp only [Sender.skipsCopy, Bool.and_eq_true, decide_eq_true_eq] at hskip
          refine ⟨by cases n with | zero => omega | succ n => rfl, ?_⟩
          rw [Sender.send, Conn.ping, if_neg (by simp only [Arg.len]; omega), failWrite_rc]
          by_cases hb : Built env Opcode.ping (.null n) c
          · obtain ⟨head, seed, -, heq⟩ := sendFrameRaw_built nt ho (by decide) hb
            rw [sendFrame, heq]
            exact sentCode_ne _
          · rw [sendFrame, (sendFrameRaw_unbuilt nt ho (by decide) hb).1, if_neg]
            · decide
            intro halloc
            exact hb ⟨halloc, fun _ => hskip.2, fun h => by cases h⟩

theorem frameBytes_eq {opcode : Nat} (payload : Bytes) {head : Bytes} {log : List Event} {key : MaskKey}
    (h : buildHeader true false opcode (if env.isClient then some key else none) payload.length =
      some head) :
    head ++ bodyOf env log key (.bytes payload) = frameBytes env.isClient key opcode payload := by
  rw [frameBytes, h]
  rfl

theorem sends_what_was_asked (env : Env σ δ) (c : Conn σ δ) (s : Sender) (data : Arg)
    (ho : c.state = .opened) (hu : Uncompressed env c) (hlen : data.len < 9223372036854775808) :
    Faithful env c s data ↔ s.skipsCopy data = false := by
  constructor
  · rintro ⟨-, hnull⟩
    cases hskip : s.skipsCopy data with
    | false => rfl
    | true =>
        obtain ⟨hnone, hrc⟩ := skipsCopy_accepted env (notify env) ho hskip
        exact absurd (hnull hnone).1 hrc
  · intro hskip
    refine ⟨fun hok => ?_, fun hnone => ?_⟩
    · rcases send_cases (notify env) hu s data with heq | ⟨hsupplied, heq⟩
      · rw [heq] at hok
        cases hok
      rw [heq] at hok ⊢
      obtain ⟨hfail, hok⟩ := failWrite_success hok
      rw [hfail]
      obtain ⟨-, head, hhead, houts⟩ := sendFrameRaw_sent ho s.opcode_lt hok
      rw [houts]
      cases data with
      | bytes b =>
          rw [frameBytes_eq b hhead]
          exact ⟨b, rfl, rfl, frameBytes_readAs _ _ s.opcode_lt hlen⟩
      | null n =>
          cases n with
          | zero =>
              have hempty : ∀ key, bodyOf env (c.log ++ [.alloc true]) key (.null 0) =
                  bodyOf env (c.log ++ [.alloc true]) key (.bytes []) := fun key => by
                cases hcl : env.isClient <;> simp [bodyOf, hcl, applyMask, applyMaskOffset]
              rw [hempty, frameBytes_eq [] hhead]
              exact ⟨[], rfl, rfl, frameBytes_readAs _ _ s.opcode_lt (by decide)⟩
          | succ n =>
              rcases hsupplied with hs | hs
              · exact absurd rfl hs
              · cases hskip.symm.trans hs
    · rcases send_cases (notify env) hu s data with heq | ⟨hsupplied, heq⟩
      · rw [heq]
        exact ⟨rfl, rfl⟩
      · rcases hsupplied with hs | hs
        · exact absurd hnone hs
        · cases hskip.symm.trans hs

theorem sends_what_was_asked_text :
    (sendText plainServer (notify plainServer) (.bytes (ascii "hi")) openServer).1 = Err.success ∧
      Faithful plainServer openServer .text (.bytes (ascii "hi")) := by
  have hopen : openServer.state = .opened ∧ openServer.deflate = none := by
    rw [openServer_eq]
    decide
  have hok : (sendText plainServer (notify plainServer) (.bytes (ascii "hi")) openServer).1 =
      Err.success := by
    rw [openServer_eq]
    decide +kernel
  exact ⟨hok, (sends_what_was_asked plainServer openServer .text (.bytes (ascii "hi")) hopen.1
    (.inl hopen.2) (by decide)).mpr rfl⟩

def otherMemory : Env Unit Unit :=
  { plainServer with uninit := fun _ i => (ascii "other").getD i 0 }

-- What another allocation has left in the memory goes to the peer.
theorem null_ping_leaks :
    (Conn.ping otherMemory (notify otherMemory) (.null 5) openServer).1 = Err.success ∧
      (outs (Conn.ping otherMemory (notify otherMemory) (.null 5) openServer).2.log).getLast? =
        some (0x89 :: 5 :: ascii "other") ∧
      ¬ Faithful otherMemory openServer .ping (.null 5) := by
  have hsent : (Conn.ping otherMemory (notify otherMemory) (.null 5) openServer).1 = Err.success ∧
      (outs (Conn.ping otherMemory (notify otherMemory) (.null 5) openServer).2.log).getLast? =
        some (0x89 :: 5 :: ascii "other") := by
    rw [openServer_eq]
    decide +kernel
  refine ⟨hsent.1, hsent.2, fun h => ?_⟩
  obtain ⟨payload, hnone, -⟩ := h.1 hsent.1
  cases hnone

end Conn

end Sevent.Ws
