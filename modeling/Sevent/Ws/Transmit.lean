import Sevent.Ws.Lone
import Sevent.Ws.Sent

-- Two ends of a connection: a series of calls that send on one of them, the frames that the stream
-- takes for it, and what the user of the other end hears.
namespace Sevent.Ws

open Sevent.Stream (WriteRes)

variable {σ δ : Type}

open Conn

-- ---- frames that are on their way ----

-- A frame that the stream has queued, or was taking when it broke.
def Event.shipped : Event → Option Bytes
  | .frameOut _ data res => if res = .nomem ∨ res = .inval then none else some data
  | _ => none

def shipped (log : List Event) : List Bytes := log.filterMap Event.shipped

theorem shipped_append (log events : List Event) :
    shipped (log ++ events) = shipped log ++ shipped events :=
  List.filterMap_append

-- What is on its way has been passed to the stream.
theorem shipped_of_outs {log log' : List Event} (hp : log <+: log') (h : outs log' = outs log) :
    shipped log' = shipped log := by
  obtain ⟨events, rfl⟩ := hp
  rw [outs_append] at h
  have hevents : outs events = [] := List.append_cancel_left (h.trans (List.append_nil _).symm)
  have hnone : shipped events = [] := by
    refine List.filterMap_eq_nil_iff.mpr fun e he => ?_
    have hout := List.filterMap_eq_nil_iff.mp hevents e he
    cases e with
    | frameOut opcode data res => cases hout
    | _ => rfl
  rw [shipped_append, hnone, List.append_nil]

namespace Conn

variable {env : Env σ δ}

-- CLOSED, with no more frames on their way.
structure Over (c c' : Conn σ δ) : Prop where
  state : c'.state = .closed
  ships : shipped c'.log = shipped c.log

theorem notify_over (n : Notice) (c : Conn σ δ) : Over c (notify env n c.shut) := by
  have hc : (notifyNested env n c.shut).state = .closed := by rw [notifyNested_eq, shut_eq]
  have hm := notify_moves env n c.shut
  have hgrows : c.log <+: (notify env n c.shut).log := by
    refine List.IsPrefix.trans ?_ hm.log_grows
    rw [notifyNested_eq, shut_eq, List.append_assoc]
    exact List.prefix_append _ _
  exact ⟨hm.state_closed hc, shipped_of_outs hgrows (notify_outs env n c)⟩

theorem fatalEnd_over (err : Int) (c : Conn σ δ) : Over c (fatalEnd (notify env) err c) :=
  notify_over (.error err) c

theorem enterClosed_ends (code : Nat) (reason : Bytes) {c : Conn σ δ} (hg : c.gone = false) :
    Over c (enterClosed (notify env) code reason c) := by
  unfold enterClosed
  rw [if_neg (by simp [hg])]
  exact notify_over (.close code reason) c

theorem settle_over {res : WriteRes} {c : Conn σ δ} (ht : res.tears = true) (hg : c.gone = false) :
    Over c (settle (notify env) res c) := by
  cases res with
  | failed err =>
      simp only [settle, onStreamError, hg, Bool.false_eq_true, if_false]
      split_ifs
      · exact fatalEnd_over _ c
      · exact fatalEnd_over _ c
      · exact enterClosed_ends _ _ hg
  | torn accepted =>
      simp only [settle, onStreamClose, hg, Bool.false_eq_true, if_false]
      split_ifs
      · exact fatalEnd_over _ c
      · exact enterClosed_ends _ _ hg
  | ok => cases ht
  | nomem => cases ht
  | inval => cases ht

-- What a call has done with its frame: it is on its way, memory was short, or the connection is over.
inductive Outcome (c : Conn σ δ) (f : WireFrame) (r : Int × Conn σ δ) : Prop
  | sent (hrc : r.1 = Err.success) (hstate : r.2.state = .opened) (halive : r.2.destroyed = false)
      (hdeflate : r.2.deflate = c.deflate) (hout : shipped r.2.log = shipped c.log ++ [f.bytes])
  | short (hrc : r.1 = Err.nomem) (hstate : r.2.state = .opened) (halive : r.2.destroyed = false)
      (hdeflate : r.2.deflate = c.deflate) (hout : shipped r.2.log = shipped c.log)
  | ended (hstate : r.2.state = .closed)
      (hout : shipped r.2.log = shipped c.log ∨ shipped r.2.log = shipped c.log ++ [f.bytes])

-- The frame that a call makes of its data.
def frameOf (env : Env σ δ) (c : Conn σ δ) (opcode : Nat) (rsv1 : Bool) (payload : Bytes)
    (hop : opcode < 16) (hlen : payload.length < 9223372036854775808) : WireFrame :=
  ⟨true, rsv1, opcode, if env.isClient then some c.nextKey else none, payload, hop, hlen⟩

theorem frameOf_head {c : Conn σ δ} {opcode : Nat} {rsv1 : Bool} {payload : Bytes} (hop : opcode < 16)
    (hlen : payload.length < 9223372036854775808) :
    buildHeader true rsv1 opcode
        (if env.isClient then some (maskKeyOf (xorshift32 c.maskSeed)) else none) payload.length =
      some (frameOf env c opcode rsv1 payload hop hlen).head := by
  have heq := buildHeader_eq true rsv1 opcode
    (if env.isClient then some (maskKeyOf (xorshift32 c.maskSeed)) else none) payload.length hop
  rw [WireFrame.head]
  change _ = some ((buildHeader true rsv1 opcode
    (if env.isClient then some (maskKeyOf (xorshift32 c.maskSeed)) else none) payload.length).getD [])
  rw [heq]
  rfl

theorem frameOf_body {c : Conn σ δ} {opcode : Nat} {rsv1 : Bool} {payload : Bytes} (hop : opcode < 16)
    (hlen : payload.length < 9223372036854775808) :
    (if env.isClient then applyMask (maskKeyOf (xorshift32 c.maskSeed)) payload else payload) =
      (frameOf env c opcode rsv1 payload hop hlen).body := by
  unfold frameOf WireFrame.body nextKey
  cases env.isClient <;> rfl

variable (env) in
-- ws_fatal for a write that has failed, on a connection that is not over yet.
theorem writeFatal_over {c : Conn σ δ} (hg : c.gone = false) :
    Over c (fatal env (notify env) Err.wsWrite c) := by
  unfold fatal
  rw [if_neg (by simp [hg])]
  dsimp only
  rw [if_neg (fun h => by cases h.1)]
  exact fatalEnd_over Err.wsWrite c

-- What the stream has answered is reported once: a write that has ended the connection by a callback
-- leaves ws_fatal with nothing to do.
theorem failWrite_over {rc : Int} {c c' : Conn σ δ} (h : Over c c') :
    Over c (failWrite env (notify env) (rc, c')).2 := by
  unfold failWrite
  split_ifs
  · dsimp only
    unfold fatal
    rw [if_pos (by simp [gone, h.state])]
    exact h
  · exact h

theorem Over.outcome {c c' : Conn σ δ} {f : WireFrame} {r : Int × Conn σ δ} (h : Over c' r.2)
    (hout : shipped c'.log = shipped c.log ∨ shipped c'.log = shipped c.log ++ [f.bytes]) :
    Outcome c f r :=
  .ended h.state (hout.imp h.ships.trans h.ships.trans)

-- A frame that is passed to the stream.
theorem written_outcome {opcode : Nat} {c c' : Conn σ δ} (f : WireFrame) (ho : c'.state = .opened)
    (hd : c'.destroyed = false) (hdf : c'.deflate = c.deflate)
    (hship : shipped c'.log = shipped c.log) :
    Outcome c f (failWrite env (notify env)
      (let r := streamWrite env (notify env) (.frameOut opcode f.bytes) c'
       (sentCode r.1, r.2))) := by
  have hgone : ∀ res, (c'.written (.frameOut opcode f.bytes res) res).gone = false := by
    simp [gone, written, ho, hd]
  have hlog : ∀ res, shipped (c'.written (.frameOut opcode f.bytes res) res).log =
      shipped c.log ++ shipped [.frameOut opcode f.bytes res] := by
    intro res
    rw [written, shipped_append, hship]
  by_cases hs : c'.stream = .opened
  · rw [streamWrite_eq _ _ _ _ hs]
    generalize env.write c'.log = res
    cases res with
    | ok => exact .sent rfl ho hd hdf (hlog .ok)
    | nomem => exact .short rfl ho hd hdf ((hlog .nomem).trans (List.append_nil _))
    | inval =>
        have hover := writeFatal_over env (hgone .inval)
        exact hover.outcome (.inl ((hlog .inval).trans (List.append_nil _)))
    | failed err => exact (failWrite_over (settle_over rfl (hgone _))).outcome (.inr (hlog _))
    | torn accepted => exact (failWrite_over (settle_over rfl (hgone _))).outcome (.inr (hlog _))
  · rw [streamWrite, if_pos hs]
    exact (writeFatal_over env (by simp [gone, ho, hd])).outcome (.inl hship)

-- A PING, or a frame of a message.
theorem frame_outcome {opcode : Nat} {payload : Bytes} {c : Conn σ δ} (rsv1 : Bool)
    (ho : c.state = .opened) (hd : c.destroyed = false) (hop : opcode < 16)
    (hlen : payload.length < 9223372036854775808) (hctl : isCtrl opcode = true → payload.length ≤ 125)
    (hclose : opcode ≠ Opcode.close) :
    Outcome c (frameOf env c opcode rsv1 payload hop hlen)
      (failWrite env (notify env) (sendFrameRaw env (notify env) opcode (.bytes payload) rsv1 c)) := by
  have hseed : ∃ seed, (if env.isClient then { c with maskSeed := xorshift32 c.maskSeed } else c) =
      { c with maskSeed := seed } := by
    cases env.isClient
    · exact ⟨c.maskSeed, rfl⟩
    · exact ⟨xorshift32 c.maskSeed, rfl⟩
  obtain ⟨seed, hseed⟩ := hseed
  have halloc : ∀ ok, shipped (c.log ++ [.alloc ok]) = shipped c.log := fun ok => by
    rw [shipped_append]
    exact List.append_nil _
  unfold sendFrameRaw
  dsimp only
  rw [if_neg (by simp [ho]), if_neg (by simp [ho]), hseed]
  simp only [Arg.len, frameOf_head hop hlen, alloc, emit]
  by_cases hno : env.alloc c.log = true
  · simp only [hno, Bool.not_true, Bool.false_eq_true, if_false]
    rw [← isCtrl, if_neg (fun h => Nat.not_lt.mpr (hctl h.1) h.2), if_neg (fun h => hclose h.1),
      sent_eq, frameOf_body hop hlen]
    exact written_outcome _ ho hd rfl (halloc _)
  · simp only [Bool.not_eq_true _ ▸ hno, Bool.not_false, if_true]
    exact .short rfl ho hd rfl (halloc _)

-- NULL with no length is the empty payload.
theorem sendFrameRaw_empty (nt : Notice → Conn σ δ → Conn σ δ) (opcode : Nat) (rsv1 : Bool)
    (c : Conn σ δ) :
    sendFrameRaw env nt opcode (.null 0) rsv1 c = sendFrameRaw env nt opcode (.bytes []) rsv1 c := by
  have hbody : ∀ key : MaskKey, (if env.isClient then applyMask key [] else []) = [] := fun key => by
    cases env.isClient <;> rfl
  simp only [sendFrameRaw, Arg.len, List.length_nil, List.range_zero, List.map_nil, hbody]
  rfl

theorem Moves.over {c c' : Conn σ δ} (hm : Moves env c c') (hc : c.state = .closed) : Over c c' :=
  ⟨hm.state_closed hc, shipped_of_outs hm.log_grows (hm.outs_closed hc)⟩

end Conn

-- ---- a series of calls ----

structure Sending where
  sender : Sender
  data : Arg
  deriving DecidableEq, Repr

namespace Sending

variable {env : Env σ δ}

def payload (s : Sending) : Bytes := s.data.supplied.getD []

def send (env : Env σ δ) (s : Sending) (c : Conn σ δ) : Int × Conn σ δ :=
  s.sender.send env (notify env) s.data c

-- NULL that is sent for a PING is left out: what follows is not what was asked for.
structure Proper (s : Sending) : Prop where
  length : s.data.len < 9223372036854775808
  copies : s.sender.skipsCopy s.data = false

instance (s : Sending) : Decidable s.Proper :=
  decidable_of_iff (s.data.len < 9223372036854775808 ∧ s.sender.skipsCopy s.data = false)
    ⟨fun ⟨h₁, h₂⟩ => ⟨h₁, h₂⟩, fun ⟨h₁, h₂⟩ => ⟨h₁, h₂⟩⟩

variable (env) in
theorem send_moves (s : Sending) (c : Conn σ δ) : Moves env c (s.send env c).2 := by
  rcases s with ⟨sender, data⟩
  cases sender with
  | text => exact sendText_moves (notify_moves env) data c
  | binary => exact sendBinary_moves (notify_moves env) data c
  | ping => exact ping_moves (notify_moves env) data c

-- A frame for the other end, of the kind that was asked for.
structure Carries (env : Env σ δ) (packed : Bool) (s : Sending) (f : WireFrame) : Prop where
  lone : Lone packed (!env.isClient) f
  control : f.control = (s.sender == .ping)

-- The checks that the calls make on what is in the buffer.
def fits (sender : Sender) (b : Bytes) : Bool :=
  match sender with
  | .text => utf8Validate b
  | .binary => true
  | .ping => b.length ≤ 125

theorem supplied_cases {data : Arg} {b : Bytes} (hb : data.supplied = some b) :
    data = .bytes b ∨ data = .null 0 ∧ b = [] := by
  rcases data with ⟨_ | n⟩ | b'
  · cases hb
    exact .inr ⟨rfl, rfl⟩
  · cases hb
  · cases hb
    exact .inl rfl

theorem supplied_len {data : Arg} {b : Bytes} (hb : data.supplied = some b) : data.len = b.length := by
  rcases supplied_cases hb with rfl | ⟨rfl, rfl⟩ <;> rfl

theorem send_unfit {s : Sending} {b : Bytes} {c : Conn σ δ} (hb : s.data.supplied = some b)
    (hf : fits s.sender b = false) : s.send env c = (Err.inval, c) := by
  rcases s with ⟨sender, data⟩
  have hlen := supplied_len hb
  cases sender with
  | binary => cases hf
  | ping =>
      show Conn.ping env (notify env) data c = _
      rw [Conn.ping, if_pos]
      rw [hlen]
      exact Nat.lt_of_not_le (of_decide_eq_false hf)
  | text =>
      have hbad : utf8Validate b = false := hf
      rcases supplied_cases hb with rfl | ⟨-, rfl⟩
      · show sendText env (notify env) (.bytes b) c = _
        rw [sendText, if_pos]
        refine ⟨fun hnil => ?_, by rw [hbad, Bool.not_false]⟩
        rw [hnil] at hbad
        cases hbad
      · cases hbad

theorem opcode_close (s : Sender) : s.opcode ≠ Opcode.close := by
  cases s <;> decide

-- A frame of this kind is what `send` has been asked for.
theorem carries {s : Sending} (env : Env σ δ) (c : Conn σ δ) (packed : Bool) {b : Bytes}
    (hlen : b.length < 9223372036854775808) (hping : s.sender = .ping → b.length ≤ 125)
    (htext : packed = false → s.sender = .text → utf8Validate b = true) :
    Carries env packed s (frameOf env c s.sender.opcode (packed && s.sender != .ping) b
      s.sender.opcode_lt hlen) := by
  rcases s with ⟨sender, data⟩
  have hkey : (if env.isClient then some c.nextKey else none : Option MaskKey).isSome =
      !!env.isClient := by
    cases env.isClient <;> rfl
  cases sender with
  | text => exact ⟨⟨hkey, rfl, .inl rfl, Bool.and_true packed, fun hp _ => htext hp rfl⟩, rfl⟩
  | binary => exact ⟨⟨hkey, rfl, .inr rfl, Bool.and_true packed, fun _ h => by cases h⟩, rfl⟩
  | ping => exact ⟨⟨hkey, rfl, Bool.and_false packed, hping rfl⟩, rfl⟩

theorem isCtrl_opcode {sender : Sender} (h : isCtrl sender.opcode = true) : sender = .ping := by
  cases sender with
  | ping => rfl
  | text => cases h
  | binary => cases h

-- A call that is one frame of its data as it stands.
theorem frame_of_data {s : Sending} {c : Conn σ δ} {b : Bytes} (ho : c.state = .opened)
    (hd : c.destroyed = false) (hs : s.Proper) (hb : s.data.supplied = some b)
    (hfit : fits s.sender b = true) {packed : Bool} (hping : packed = true → s.sender = .ping)
    (heq : s.send env c =
      failWrite env (notify env) (sendFrameRaw env (notify env) s.sender.opcode s.data false c)) :
    ∃ f, Carries env packed s f ∧ f.payload = s.payload ∧ Outcome c f (s.send env c) := by
  have hlen : b.length < 9223372036854775808 := by
    rw [← supplied_len hb]
    exact hs.length
  have hshort : s.sender = .ping → b.length ≤ 125 := fun h => by
    rw [h] at hfit
    exact of_decide_eq_true hfit
  have htext : s.sender = .text → utf8Validate b = true := fun h => by
    rw [h] at hfit
    exact hfit
  have hrsv : (packed && s.sender != .ping) = false := by
    cases packed with
    | false => rfl
    | true =>
        rw [hping rfl]
        rfl
  have hraw : sendFrameRaw env (notify env) s.sender.opcode s.data false c =
      sendFrameRaw env (notify env) s.sender.opcode (.bytes b) false c := by
    rcases supplied_cases hb with hdata | ⟨hdata, rfl⟩
    · rw [hdata]
    · rw [hdata, sendFrameRaw_empty]
  have hf := carries env c packed hlen hshort fun _ => htext
  rw [hrsv] at hf
  refine ⟨_, hf, ?_, ?_⟩
  · rw [payload, hb]
    rfl
  · rw [heq, hraw]
    exact frame_outcome false ho hd s.sender.opcode_lt hlen (fun h => hshort (isCtrl_opcode h))
      (opcode_close _)

-- A call on an OPEN connection without compression.
theorem plain_outcome {s : Sending} {c : Conn σ δ} (hu : Uncompressed env c) (ho : c.state = .opened)
    (hd : c.destroyed = false) (hs : s.Proper) :
    s.send env c = (Err.inval, c) ∨
      ∃ f, Carries env false s f ∧ f.payload = s.payload ∧ Outcome c f (s.send env c) := by
  rcases send_cases (notify env) hu s.sender s.data with heq | ⟨hsupplied, heq⟩
  · exact .inl heq
  rcases hsupplied with hsupplied | hskip
  case inr => cases hs.copies.symm.trans hskip
  obtain ⟨b, hb⟩ := Option.ne_none_iff_exists'.mp hsupplied
  cases hfit : fits s.sender b with
  | false => exact .inl (send_unfit hb hfit)
  | true => exact .inr (frame_of_data ho hd hs hb hfit (fun h => by cases h) heq)

end Sending

-- The messages of the calls that have succeeded, and of the one that has ended the connection.
def offered (env : Env σ δ) : Conn σ δ → List Sending → List Bytes
  | _, [] => []
  | c, s :: rest =>
      if c.state = .opened ∧ s.sender ≠ .ping ∧
          ((s.send env c).1 = Err.success ∨ (s.send env c).2.state = .closed) then
        s.payload :: offered env (s.send env c).2 rest
      else offered env (s.send env c).2 rest

def sendAll (env : Env σ δ) (c : Conn σ δ) (calls : List Sending) : Conn σ δ :=
  calls.foldl (fun c s => (s.send env c).2) c

section

variable {env : Env σ δ} {c : Conn σ δ} {s : Sending} {calls : List Sending}

theorem sendAll_over (calls : List Sending) {c : Conn σ δ} (hc : c.state = .closed) :
    Over c (sendAll env c calls) := by
  induction calls generalizing c with
  | nil => exact ⟨hc, rfl⟩
  | cons s rest ih =>
      have hover := (s.send_moves env c).over hc
      have hrest := ih hover.state
      exact ⟨hrest.state, hrest.ships.trans hover.ships⟩

-- The frames of a series of calls, with the bytes of each message and what it stands for. A frame
-- that the stream was taking when it broke is the last one.
structure Series (env : Env σ δ) (packed : Bool) (c : Conn σ δ) (calls : List Sending)
    (fs : List WireFrame) (ms : List (Bytes × Bytes)) : Prop where
  out : shipped (sendAll env c calls).log = shipped c.log ++ fs.map WireFrame.bytes
  lone : ∀ f ∈ fs, Lone packed (!env.isClient) f
  read : messages [] fs = ms.map Prod.fst
  told : ms.map Prod.snd <+: offered env c calls
  all : (sendAll env c calls).state ≠ .closed → ms.map Prod.snd = offered env c calls

namespace Series

variable {packed : Bool} {fs : List WireFrame} {ms : List (Bytes × Bytes)} {f : WireFrame}

theorem nil (packed : Bool) (c : Conn σ δ) : Series env packed c [] [] [] :=
  ⟨(List.append_nil _).symm, List.forall_mem_nil _, rfl, List.prefix_rfl, fun _ => rfl⟩

theorem closed (packed : Bool) (calls : List Sending) (hc : c.state = .closed) :
    Series env packed c calls [] [] := by
  have hover : Over c (sendAll env c calls) := sendAll_over calls hc
  exact ⟨hover.ships.trans (List.append_nil _).symm, List.forall_mem_nil _, rfl, List.nil_prefix,
    fun h => absurd hover.state h⟩

-- A call that sends nothing and leaves the connection open.
theorem quiet (hrc : (s.send env c).1 ≠ Err.success) (hstate : (s.send env c).2.state ≠ .closed)
    (hout : shipped (s.send env c).2.log = shipped c.log)
    (h : Series env packed (s.send env c).2 calls fs ms) : Series env packed c (s :: calls) fs ms := by
  have hoffered : offered env c (s :: calls) = offered env (s.send env c).2 calls := by
    rw [offered, if_neg]
    rintro ⟨-, -, hr | hr⟩
    · exact hrc hr
    · exact hstate hr
  refine ⟨?_, h.lone, h.read, ?_, ?_⟩
  · rw [← hout]
    exact h.out
  · rw [hoffered]
    exact h.told
  · rw [hoffered]
    exact h.all

theorem messages_cons_ping (hping : s.sender = .ping) (hf : Sending.Carries env packed s f) :
    messages [] (f :: fs) = messages [] fs := by
  rw [messages, if_pos (by rw [hf.control, hping]; rfl)]

theorem messages_cons_message (hping : s.sender ≠ .ping) (hf : Sending.Carries env packed s f) :
    messages [] (f :: fs) = f.payload :: messages [] fs := by
  rw [messages, if_neg, if_pos hf.lone.2.1, List.nil_append]
  rw [hf.control]
  simpa using hping

theorem sent_ping (hping : s.sender = .ping)
    (hf : Sending.Carries env packed s f) (hout : shipped (s.send env c).2.log = shipped c.log ++ [f.bytes])
    (h : Series env packed (s.send env c).2 calls fs ms) :
    Series env packed c (s :: calls) (f :: fs) ms := by
  have hoffered : offered env c (s :: calls) = offered env (s.send env c).2 calls := by
    rw [offered, if_neg (fun h => h.2.1 hping)]
  refine ⟨?_, ?_, ?_, ?_, ?_⟩
  · have hrest := h.out
    rw [hout, List.append_assoc] at hrest
    exact hrest
  · rw [List.forall_mem_cons]
    exact ⟨hf.lone, h.lone⟩
  · rw [messages_cons_ping hping hf]
    exact h.read
  · rw [hoffered]
    exact h.told
  · rw [hoffered]
    exact h.all

theorem sent_message (ho : c.state = .opened) (hping : s.sender ≠ .ping)
    (hrc : (s.send env c).1 = Err.success ∨ (s.send env c).2.state = .closed)
    (hf : Sending.Carries env packed s f) (hout : shipped (s.send env c).2.log = shipped c.log ++ [f.bytes])
    (h : Series env packed (s.send env c).2 calls fs ms) :
    Series env packed c (s :: calls) (f :: fs) ((f.payload, s.payload) :: ms) := by
  have hoffered : offered env c (s :: calls) = s.payload :: offered env (s.send env c).2 calls := by
    rw [offered, if_pos ⟨ho, hping, hrc⟩]
  refine ⟨?_, ?_, ?_, ?_, ?_⟩
  · have hrest := h.out
    rw [hout, List.append_assoc] at hrest
    exact hrest
  · rw [List.forall_mem_cons]
    exact ⟨hf.lone, h.lone⟩
  · rw [messages_cons_message hping hf, h.read]
    rfl
  · rw [hoffered]
    exact List.cons_prefix_cons.mpr ⟨rfl, h.told⟩
  · intro hc
    rw [hoffered, ← h.all hc]
    rfl

-- The call in which the connection ends, with its frame on the wire or not.
theorem ended (calls : List Sending) (ho : c.state = .opened) (hc : (s.send env c).2.state = .closed)
    (hf : Sending.Carries env packed s f)
    (hout : shipped (s.send env c).2.log = shipped c.log ∨
      shipped (s.send env c).2.log = shipped c.log ++ [f.bytes]) :
    Series env packed c (s :: calls) [] [] ∨
      if s.sender = .ping then Series env packed c (s :: calls) [f] []
      else Series env packed c (s :: calls) [f] [(f.payload, s.payload)] := by
  have hend : Series env packed _ calls [] [] := closed packed calls hc
  rcases hout with hout | hout
  · left
    refine ⟨?_, hend.lone, hend.read, List.nil_prefix, fun h => ?_⟩
    · rw [← hout]
      exact hend.out
    · exact absurd (sendAll_over calls hc).state h
  · right
    split_ifs with hping
    · exact sent_ping hping hf hout hend
    · exact sent_message ho hping (.inr hc) hf hout hend

end Series

-- Without compression a message is what stands for it.
theorem plain_series (hu : Uncompressed env c) (hd : c.destroyed = false) (ho : c.state = .opened)
    (hproper : ∀ s ∈ calls, s.Proper) :
    ∃ fs ms, Series env false c calls fs ms ∧ ∀ m ∈ ms, m.1 = m.2 := by
  induction calls generalizing c with
  | nil => exact ⟨[], [], .nil false c, List.forall_mem_nil _⟩
  | cons s rest ih =>
      obtain ⟨hs, hrest⟩ := List.forall_mem_cons.mp hproper
      rcases Sending.plain_outcome hu ho hd hs with heq | ⟨f, hf, hpay, hout⟩
      · obtain ⟨fs, ms, hser, hms⟩ := ih hu hd ho hrest
        have hback : (s.send env c).2 = c := by rw [heq]
        refine ⟨fs, ms, .quiet ?_ ?_ ?_ (by rwa [hback]), hms⟩
        · rw [heq]
          exact fun h => by cases h
        · rw [hback, ho]
          exact fun h => by cases h
        · rw [hback]
      have hu' : (s.send env c).2.deflate = c.deflate → Uncompressed env (s.send env c).2 := fun hdf =>
        hu.imp_left hdf.trans
      cases hout with
      | sent hrc hstate halive hdeflate hout =>
          obtain ⟨fs, ms, hser, hms⟩ := ih (hu' hdeflate) halive hstate hrest
          by_cases hping : s.sender = .ping
          · exact ⟨f :: fs, ms, .sent_ping hping hf hout hser, hms⟩
          · exact ⟨f :: fs, _, .sent_message ho hping (.inl hrc) hf hout hser,
              List.forall_mem_cons.mpr ⟨hpay, hms⟩⟩
      | short hrc hstate halive hdeflate hout =>
          obtain ⟨fs, ms, hser, hms⟩ := ih (hu' hdeflate) halive hstate hrest
          refine ⟨fs, ms, .quiet ?_ ?_ hout hser, hms⟩
          · rw [hrc]
            exact fun h => by cases h
          · rw [hstate]
            exact fun h => by cases h
      | ended hc hout =>
          rcases Series.ended rest ho hc hf hout with hser | hser
          · exact ⟨[], [], hser, List.forall_mem_nil _⟩
          · split_ifs at hser
            · exact ⟨[f], [], hser, List.forall_mem_nil _⟩
            · exact ⟨[f], _, hser, List.forall_mem_singleton.mpr hpay⟩

theorem Delivers.mono {ms ms' : List Bytes} {r : List Bytes × Bytes} (h : Delivers ms r)
    (hp : ms <+: ms') : Delivers ms' r := by
  obtain ⟨more, rfl⟩ := hp
  obtain ⟨rest, rfl, hpart⟩ := h
  refine ⟨rest ++ more, by rw [List.append_assoc], ?_⟩
  rcases hpart with hnil | ⟨m, tail, rfl, hpart⟩
  · exact .inl hnil
  · exact .inr ⟨m, tail ++ more, rfl, hpart⟩

-- What is on its way since the series began.
theorem Series.on_wire {packed : Bool} {fs : List WireFrame} {ms : List (Bytes × Bytes)}
    (h : Series env packed c calls fs ms) :
    (shipped ((sendAll env c calls).log.drop c.log.length)).flatten = wire fs := by
  have hmoves : c.log <+: (sendAll env c calls).log := by
    clear h
    induction calls generalizing c with
    | nil => exact List.prefix_rfl
    | cons s rest ih => exact (s.send_moves env c).log_grows.trans ih
  obtain ⟨events, hlog⟩ := hmoves
  have hout := h.out
  rw [← hlog, shipped_append] at hout
  rw [← hlog, List.drop_left, List.append_cancel_left hout, wire, List.flatMap_def]

-- Calls on one end, in any series, and the other end: on_message is given the messages of the calls
-- that were accepted, in order and whole, however the stream cuts the bytes. `fut` is still on its
-- way. A PING on its way changes nothing, nor does a call that was refused.
theorem delivered_as_sent (env : Env σ δ) (c : Conn σ δ) (hu : Uncompressed env c)
    (ho : c.state = .opened) (hd : c.destroyed = false) (calls : List Sending)
    (hproper : ∀ s ∈ calls, s.Proper) {σ' δ' : Type} (peer : Env σ' δ')
    (hrole : peer.isClient = !env.isClient)
    (hg : peer.Gentle) (hm : peer.onMessage.isSome = true) (hcap : 1024 ≤ peer.recvCap)
    (p : Conn σ' δ') (hidle : Idle p) (pushes : List Bytes) (fut : Bytes)
    (hwire : pushes.flatten ++ fut = (shipped ((sendAll env c calls).log.drop c.log.length)).flatten)
    (hsmall : ∀ d ∈ pushes, d.length ≤ peer.recvCap / 2) :
    Delivers (offered env c calls)
        (heard ((run peer p (pushes.map .data)).log.drop p.log.length)) ∧
      ((run peer p (pushes.map .data)).state = .closed →
        Faulty p.log.length (run peer p (pushes.map .data)).log) ∧
      (fut = [] → (run peer p (pushes.map .data)).state ≠ .closed →
        (sendAll env c calls).state ≠ .closed →
        heard ((run peer p (pushes.map .data)).log.drop p.log.length) = (offered env c calls, [])) := by
  obtain ⟨fs, ms, hser, hms⟩ := plain_series hu hd ho hproper
  have hsame : ms.map Prod.fst = ms.map Prod.snd := List.map_congr_left hms
  have hlone : ∀ f ∈ fs, Lone false peer.isClient f := by
    rw [hrole]
    exact hser.lone
  rw [hser.on_wire] at hwire
  obtain ⟨hdel, hfault, hall⟩ := Inbox.plain_heard hg hm hcap hidle hlone hwire hsmall
  rw [hser.read, hsame] at hdel hall
  refine ⟨?_, hfault, fun hfut hp hc => ?_⟩
  · exact hdel.mono hser.told
  · rw [hall hfut hp, hser.all hc]

end

-- The connection that a client has opened.
def openClient : Conn Unit Unit :=
  run plainClient (start (ascii "h") 80 (ascii "/a") 1)
    [.streamOpened, .data (ascii "HTTP/1.1 101 Switching Protocols\r\n" ++
      ascii "Sec-WebSocket-Accept: s3pPLMBiTxaQ9kYGzzhZRbK+xOo=\r\n\r\n")]

-- A TEXT message that is not UTF-8 is refused, and the others arrive.
def fourCalls : List Sending :=
  [⟨.text, .bytes (ascii "hi")⟩, ⟨.text, .bytes [0xFF]⟩, ⟨.ping, .bytes (ascii "p")⟩,
    ⟨.binary, .bytes (List.replicate 600 0x41)⟩]

theorem delivered_as_sent_four :
    ∃ pushes : List Bytes, pushes.length = 3 ∧
      heard ((run plainServer openServer (pushes.map .data)).log.drop openServer.log.length) =
        ([ascii "hi", List.replicate 600 0x41], []) := by
  let wired := (shipped ((sendAll plainClient openClient fourCalls).log.drop openClient.log.length)).flatten
  obtain ⟨hu, ho, hd, hproper, hidle, hwire, hsmall, hp, hc, hoffered⟩ :
      openClient.deflate = none ∧ openClient.state = .opened ∧ openClient.destroyed = false ∧
      (∀ s ∈ fourCalls, s.Proper) ∧ Idle openServer ∧ (pieces wired).flatten ++ [] = wired ∧
      (∀ d ∈ pieces wired, d.length ≤ plainServer.recvCap / 2) ∧
      (run plainServer openServer ((pieces wired).map .data)).state ≠ .closed ∧
      (sendAll plainClient openClient fourCalls).state ≠ .closed ∧
      offered plainClient openClient fourCalls = [ascii "hi", List.replicate 600 0x41] := by
    rw [openServer_eq]
    decide +kernel
  refine ⟨pieces wired, rfl, ?_⟩
  rw [← hoffered]
  exact (delivered_as_sent plainClient openClient (.inl hu) ho hd fourCalls hproper plainServer rfl
    plainServer_gentle rfl (by decide) openServer hidle (pieces wired) [] hwire hsmall).2.2 rfl hp hc

end Sevent.Ws
