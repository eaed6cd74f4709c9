import Sevent.Ws.Compress
import Sevent.Ws.Transmit

-- Compressed messages from one end of a connection to the other.
namespace Sevent.Ws

variable {σ δ : Type}

open Conn

namespace Sending

variable {env : Env σ δ}

-- The output of the compressor does not fill its buffer, and a frame that is refused for want of
-- memory leaves no trace in the context.
def smooth (env : Env σ δ) (c : Conn σ δ) (s : Sending) : Bool :=
  match c.deflate, s.data with
  | some df, .bytes b =>
      (env.zlib.deflate df.deflate b (compressMaxlen env.zlib df b.length) .syncFlush).out.length <
          compressMaxlen env.zlib df b.length &&
        (df.clientNoContextTakeover || !env.alloc c.log || (s.send env c).1 != Err.nomem)
  | _, _ => true

-- A call that has sent no frame.
structure Quiet (env : Env σ δ) (c : Conn σ δ) (df : Deflate σ δ) (r : Int × Conn σ δ) : Prop where
  rc : r.1 ≠ Err.success
  state : r.2.state = .opened
  alive : r.2.destroyed = false
  out : shipped r.2.log = shipped c.log
  deflate : ∃ df', r.2.deflate = some df' ∧ Failed env.zlib df df'

section

variable {s : Sending} {c : Conn σ δ} {df : Deflate σ δ}

theorem message_eq (env : Env σ δ) (c : Conn σ δ) {b : Bytes} (hping : s.sender ≠ .ping) (hb : s.data.supplied = some b)
    (hfit : fits s.sender b = true) :
    s.send env c = failWrite env (notify env)
      (sendMessage env (notify env) s.sender.opcode s.data c) := by
  rcases s with ⟨sender, data⟩
  cases sender with
  | ping => exact absurd rfl hping
  | binary => rcases supplied_cases hb with rfl | ⟨rfl, -⟩ <;> rfl
  | text =>
      rcases supplied_cases hb with rfl | ⟨rfl, -⟩
      · show sendText env (notify env) (.bytes b) c = _
        rw [sendText, if_neg]
        · rfl
        rintro ⟨-, hbad⟩
        have hgood : utf8Validate b = true := hfit
        rw [hgood] at hbad
        cases hbad
      · rfl

theorem opcode_message (hping : s.sender ≠ .ping) :
    s.sender.opcode = Opcode.text ∨ s.sender.opcode = Opcode.binary := by
  cases hs : s.sender with
  | text => exact .inl rfl
  | binary => exact .inr rfl
  | ping => exact absurd hs hping

theorem alloc_shipped (ok : Bool) : shipped (c.log ++ [.alloc ok]) = shipped c.log := by
  rw [shipped_append]
  exact List.append_nil _

-- A message either fails before its frame is made, or it is a frame of what ws_deflate_compress has
-- given out.
theorem message_outcome {b : Bytes} (hdf : c.deflate = some df) (hl : env.deflateLevel ≠ levelNone)
    (ho : c.state = .opened) (hd : c.destroyed = false) (hping : s.sender ≠ .ping)
    (hb : s.data.supplied = some b) (hfit : fits s.sender b = true) (hsm : s.smooth env c = true) :
    Quiet env c df (s.send env c) ∨
      env.alloc c.log = true ∧ s.data = .bytes b ∧ ∃ comp df' f, Carries env true s f ∧ f.payload = comp ∧
        compress env.zlib df (some b) (compressMaxlen env.zlib df b.length) = (some comp, df') ∧
        Outcome { c with deflate := some df', log := c.log ++ [.alloc true] } f (s.send env c) := by
  have hquiet : ∀ rc df' ok, rc ≠ Err.success → rc ≠ Err.wsWrite → Failed env.zlib df df' →
      s.send env c = failWrite env (notify env)
        (rc, { c with deflate := some df', log := c.log ++ [.alloc ok] }) →
      Quiet env c df (s.send env c) := by
    intro rc df' ok hrc hwrite hfail heq
    rw [heq, failWrite, if_neg hwrite]
    exact ⟨hrc, ho, hd, alloc_shipped ok, df', rfl, hfail⟩
  have heq := message_eq env c hping hb hfit
  have hop : ¬ (env.deflateLevel = levelNone ∨
      ¬ (s.sender.opcode = Opcode.text ∨ s.sender.opcode = Opcode.binary)) := by
    rintro (h | h)
    · exact hl h
    · exact h (opcode_message hping)
  simp only [sendMessage, hdf, if_neg hop, alloc, emit] at heq
  by_cases hno : env.alloc c.log = true
  case neg =>
    simp only [Bool.not_eq_true _ ▸ hno, Bool.not_false, if_true] at heq
    left
    refine hquiet Err.nomem df false (by decide) (by decide) (.inl rfl) (heq.trans ?_)
    rw [← hdf]
  simp only [hno, Bool.not_true, Bool.false_eq_true, if_false] at heq
  rcases supplied_cases hb with hdata | ⟨hdata, -⟩
  case inr =>
    rw [hdata] at heq
    exact .inl (hquiet Err.wsProtocol df true (by decide) (by decide) (.inl rfl) heq)
  rw [hdata] at heq
  simp only [Arg.toOption, Arg.len] at heq
  rcases compress_cases env.zlib df b (compressMaxlen env.zlib df b.length) with
    ⟨df', hcomp, hfail⟩ | ⟨hcap, hok, hcomp⟩
  · rw [hcomp] at heq
    exact .inl (hquiet Err.wsProtocol df' true (by decide) (by decide) hfail heq)
  right
  obtain ⟨comp, df', hcomp, hlen⟩ : ∃ comp df', compress env.zlib df (some b)
      (compressMaxlen env.zlib df b.length) = (some comp, df') ∧ comp.length < 9223372036854775808 := by
    refine ⟨_, _, hcomp, ?_⟩
    simp only [smooth, hdf, hdata, Bool.and_eq_true, decide_eq_true_eq] at hsm
    simp only [List.length_take]
    have hmax : uintMax = 4294967295 := rfl
    have hroom := hsm.1
    omega
  rw [hcomp] at heq
  have hf := carries env { c with deflate := some df', log := c.log ++ [.alloc true] } true hlen
    (fun h => absurd h hping) fun h => by cases h
  have hrsv : (true && s.sender != .ping) = true := by simpa using hping
  rw [hrsv] at hf
  refine ⟨hno, hdata, comp, df', _, hf, rfl, hcomp, ?_⟩
  rw [heq]
  exact frame_outcome (c := { c with deflate := some df', log := c.log ++ [.alloc true] }) true ho hd
    s.sender.opcode_lt hlen (fun h => absurd (isCtrl_opcode h) hping) (opcode_close _)

-- A PING is not compressed.
theorem ping_outcome (ho : c.state = .opened) (hd : c.destroyed = false) (hs : s.Proper)
    (hping : s.sender = .ping) :
    s.send env c = (Err.inval, c) ∨ ∃ f, Carries env true s f ∧ Outcome c f (s.send env c) := by
  by_cases hlen : s.data.len > 125
  · left
    rcases s with ⟨sender, data⟩
    obtain rfl : sender = .ping := hping
    exact if_pos hlen
  right
  have hcopies := hs.copies
  obtain ⟨b, hb⟩ : ∃ b, s.data.supplied = some b := by
    rw [hping] at hcopies
    rcases hdata : s.data with ⟨_ | n⟩ | b
    · exact ⟨[], rfl⟩
    · rw [hdata] at hcopies hlen
      simp only [Sender.skipsCopy, Arg.len] at hcopies hlen
      simp at hcopies
      omega
    · exact ⟨b, rfl⟩
  have hfit : fits s.sender b = true := by
    rw [hping]
    refine decide_eq_true ?_
    rw [← supplied_len hb]
    omega
  have heq : s.send env c =
      failWrite env (notify env) (sendFrameRaw env (notify env) s.sender.opcode s.data false c) := by
    rcases s with ⟨sender, data⟩
    obtain rfl : sender = .ping := hping
    exact if_neg hlen
  obtain ⟨f, hf, -, hout⟩ := frame_of_data ho hd hs hb hfit (fun _ => hping) heq
  exact ⟨f, hf, hout⟩

end

-- A call on an OPEN connection with compression.
theorem packed_outcome {s : Sending} {c : Conn σ δ} {df : Deflate σ δ} (hdf : c.deflate = some df)
    (hl : env.deflateLevel ≠ levelNone) (ho : c.state = .opened) (hd : c.destroyed = false)
    (hs : s.Proper) (hsm : s.smooth env c = true) :
    Quiet env c df (s.send env c) ∨
      (s.sender = .ping ∧ ∃ f, Carries env true s f ∧ Outcome c f (s.send env c)) ∨
      s.sender ≠ .ping ∧ env.alloc c.log = true ∧ ∃ b, s.data = .bytes b ∧
        ∃ comp df' f, Carries env true s f ∧ f.payload = comp ∧
        compress env.zlib df (some b) (compressMaxlen env.zlib df b.length) = (some comp, df') ∧
        Outcome { c with deflate := some df', log := c.log ++ [.alloc true] } f (s.send env c) := by
  have hrefused : s.send env c = (Err.inval, c) → Quiet env c df (s.send env c) := by
    intro heq
    rw [heq]
    have hne : Err.inval ≠ Err.success := by decide
    exact ⟨hne, ho, hd, rfl, df, hdf, .inl rfl⟩
  by_cases hping : s.sender = .ping
  · rcases ping_outcome ho hd hs hping with heq | hout
    · exact .inl (hrefused heq)
    · exact .inr (.inl ⟨hping, hout⟩)
  cases hb : s.data.supplied with
  | none =>
      left
      apply hrefused
      rcases s with ⟨sender, data⟩
      rcases data with ⟨_ | n⟩ | b
      · cases hb
      · cases sender with
        | text => rfl
        | binary => rfl
        | ping => exact absurd rfl hping
      · cases hb
  | some b =>
      cases hfit : fits s.sender b with
      | false => exact .inl (hrefused (send_unfit hb hfit))
      | true =>
          rcases message_outcome hdf hl ho hd hping hb hfit hsm with hquiet | ⟨halloc, hdata, hout⟩
          · exact .inl hquiet
          · exact .inr (.inr ⟨hping, halloc, b, hdata, hout⟩)

end Sending

-- A series of smooth calls.
def smoothAll (env : Env σ δ) : Conn σ δ → List Sending → Bool
  | _, [] => true
  | c, s :: rest => s.smooth env c && smoothAll env (s.send env c).2 rest

section

variable {env : Env σ δ} {D : Decoder Byte Byte} {P : Bytes → Prop} {at_ : δ → Bytes → Bytes → Prop}
variable {c : Conn σ δ} {df : Deflate σ δ} {H : Bytes} {nct : Bool} {calls : List Sending}

-- The messages of a series of calls go through the decoder of the other end one after the other.
theorem packed_series (hz : env.zlib.Deflates D P at_) (hr : D.Restarts P)
    (hl : env.deflateLevel ≠ levelNone) (hd : c.destroyed = false) (ho : c.state = .opened)
    (hdf : c.deflate = some df) (hnct : nct = true → df.clientNoContextTakeover = true)
    (hs : InStep D P at_ df.deflate H) (hproper : ∀ s ∈ calls, s.Proper)
    (hsmooth : smoothAll env c calls = true) :
    ∃ fs ms, Series env true c calls fs ms ∧ SyncFlushed D nct H ms := by
  induction calls generalizing c df H with
  | nil => exact ⟨[], [], .nil true c, trivial⟩
  | cons s rest ih =>
      obtain ⟨hp, hprest⟩ := List.forall_mem_cons.mp hproper
      obtain ⟨hsm, hsmrest⟩ := Bool.and_eq_true_iff.mp hsmooth
      rcases Sending.packed_outcome hdf hl ho hd hp hsm with hq | ⟨hping, f, hf, hout⟩ |
        ⟨hping, halloc, b, hdata, comp, df', f, hf, rfl, hcomp, hout⟩
      · obtain ⟨df', hdf', hfail⟩ := hq.deflate
        obtain ⟨fs, ms, hser, hms⟩ := ih hq.alive hq.state hdf' (fun h => hfail.kept ▸ hnct h)
          (hfail.inStep hz hs) hprest hsmrest
        exact ⟨fs, ms, hser.quiet hq.rc (by rw [hq.state]; decide) hq.out, hms⟩
      · cases hout with
        | sent hrc hstate halive hdeflate hout =>
            obtain ⟨fs, ms, hser, hms⟩ := ih halive hstate (hdeflate.trans hdf) hnct hs hprest hsmrest
            exact ⟨f :: fs, ms, .sent_ping hping hf hout hser, hms⟩
        | short hrc hstate halive hdeflate hout =>
            obtain ⟨fs, ms, hser, hms⟩ := ih halive hstate (hdeflate.trans hdf) hnct hs hprest hsmrest
            exact ⟨fs, ms, .quiet (by rw [hrc]; decide) (by rw [hstate]; decide) hout hser, hms⟩
        | ended hc hout =>
            rcases Series.ended rest ho hc hf hout with hser | hser
            · exact ⟨[], [], hser, trivial⟩
            · rw [if_pos hping] at hser
              exact ⟨[f], [], hser, trivial⟩
      · have hpay : s.payload = b := by rw [Sending.payload, hdata]; rfl
        simp only [Sending.smooth, hdf, hdata, Bool.and_eq_true, decide_eq_true_eq] at hsm
        have hpacks := compress_packs hz hr hs (fun _ => hsm.1) hcomp
        obtain ⟨d, hd'⟩ := compress_deflate env.zlib df (some b) (compressMaxlen env.zlib df b.length)
        have hkept : df'.clientNoContextTakeover = df.clientNoContextTakeover := by
          rw [hcomp] at hd'
          rw [show df' = { df with deflate := d } from hd']
        have hnct' : nct = true → df'.clientNoContextTakeover = true := fun h => hkept.trans (hnct h)
        have hship : shipped (c.log ++ [.alloc true]) = shipped c.log := Sending.alloc_shipped true
        have hnext : InStep D P at_ df'.deflate (rebased nct (H ++ (f.payload ++ deflateTail))) := by
          cases nct with
          | false => exact hpacks.inStep
          | true => exact hpacks.anew (hnct' rfl) [] hr.start
        cases hout with
        | sent hrc hstate halive hdeflate hout =>
            obtain ⟨fs, ms, hser, hms⟩ := ih halive hstate hdeflate hnct' hnext hprest hsmrest
            refine ⟨f :: fs, (f.payload, s.payload) :: ms, .sent_message ho hping (.inl hrc) hf
              (hout.trans (by rw [hship])) hser, hpacks.going, ?_, hms⟩
            rw [hpay]
            exact hpacks.text
        | short hrc hstate halive hdeflate hout =>
            have hcnct : df.clientNoContextTakeover = true := by
              have hkeep := hsm.2
              rw [halloc, hrc] at hkeep
              simpa using hkeep
            obtain ⟨fs, ms, hser, hms⟩ := ih halive hstate hdeflate hnct'
              (hpacks.anew (hkept.trans hcnct) H hs.place) hprest hsmrest
            exact ⟨fs, ms, .quiet (by rw [hrc]; decide) (by rw [hstate]; decide) (hout.trans hship) hser,
              hms⟩
        | ended hc hout =>
            have hout' := hout.imp (·.trans hship) (·.trans (by rw [hship]))
            rcases Series.ended rest ho hc hf hout' with hser | hser
            · exact ⟨[], [], hser, trivial⟩
            · rw [if_neg hping] at hser
              refine ⟨[f], _, hser, hpacks.going, ?_, trivial⟩
              rw [hpay]
              exact hpacks.text

end

-- Calls on one end of a connection with compression, and the other end: on_message is given the texts
-- of the calls that were accepted, in order and whole, however the stream cuts the bytes. A call may
-- fail for want of memory, or because ws_deflate_compress has failed.
theorem decompressed_as_sent (env : Env σ δ) (D : Decoder Byte Byte) (P : Bytes → Prop)
    (at_ : δ → Bytes → Bytes → Prop) (hz : env.zlib.Deflates D P at_) (hr : D.Restarts P)
    (c : Conn σ δ) (hl : env.deflateLevel ≠ levelNone) (ho : c.state = .opened)
    (hd : c.destroyed = false) (df : Deflate σ δ) (hdf : c.deflate = some df)
    (hfresh : at_ df.deflate [] []) (calls : List Sending) (hproper : ∀ s ∈ calls, s.Proper)
    (hsmooth : smoothAll env c calls = true) {σ' δ' : Type} (peer : Env σ' δ')
    (hrole : peer.isClient = !env.isClient) (hg : peer.Gentle) (hm : peer.onMessage.isSome = true)
    (hcap : 1024 ≤ peer.recvCap) (hroom : peer.recvCap + 4 < 4294967296)
    (standsAt : σ' → Bytes → Nat → Prop) (hz' : peer.zlib.Inflates D standsAt)
    (p : Conn σ' δ') (hidle : Idle p) (i : σ') (nct : Bool) (hinf : p.inflater = some (i, nct))
    (hstart : standsAt i [] 0) (hnct : nct = true → df.clientNoContextTakeover = true)
    (pushes : List Bytes) (fut : Bytes)
    (hwire : pushes.flatten ++ fut = (shipped ((sendAll env c calls).log.drop c.log.length)).flatten)
    (hsmall : ∀ d ∈ pushes, d.length ≤ peer.recvCap / 2)
    (hgrant : Event.alloc false ∉ (run peer p (pushes.map .data)).log.drop p.log.length) :
    Delivers (offered env c calls)
        (heard ((run peer p (pushes.map .data)).log.drop p.log.length)) ∧
      ((run peer p (pushes.map .data)).state = .closed →
        Faulty p.log.length (run peer p (pushes.map .data)).log) ∧
      (fut = [] → (run peer p (pushes.map .data)).state ≠ .closed →
        (sendAll env c calls).state ≠ .closed →
        heard ((run peer p (pushes.map .data)).log.drop p.log.length) = (offered env c calls, [])) := by
  have hs : InStep D P at_ df.deflate [] := by
    refine ⟨hr.start, [], [], [], rfl, hr.start, hfresh, ?_⟩
    rw [D.text_nil, List.append_nil]
  obtain ⟨fs, ms, hser, hms⟩ := packed_series hz hr hl hd ho hdf hnct hs hproper hsmooth
  have hlone : ∀ f ∈ fs, Lone true peer.isClient f := by
    rw [hrole]
    exact hser.lone
  rw [hser.on_wire] at hwire
  obtain ⟨hdel, hfault, hall⟩ := Inbox.inflated_heard hg hm hz' hcap hroom hidle hinf hstart hms hlone
    hser.read hwire hsmall hgrant
  refine ⟨hdel.mono hser.told, hfault, fun hfut hp hc => ?_⟩
  rw [hall hfut hp, hser.all hc]

def storingServer : Env (Block × Bytes) Bytes :=
  { plainServer with enableDeflate := true, zlib := zlibStoring }

def storingClient : Env (Block × Bytes) Bytes := { storingServer with isClient := true }

theorem storingServer_gentle : storingServer.Gentle := by
  constructor <;> (intro script h; cases h; simp)

def storingAccepted : Conn (Block × Bytes) Bytes :=
  run storingServer (start [] 0 [] 1) [.streamOpened, .data packedRequest]

def storingOpened : Conn (Block × Bytes) Bytes :=
  run storingClient (start (ascii "h") 80 (ascii "/a") 1)
    [.streamOpened, .data (ascii "HTTP/1.1 101 Switching Protocols\r\n" ++
      ascii "Sec-WebSocket-Accept: s3pPLMBiTxaQ9kYGzzhZRbK+xOo=\r\n" ++
      ascii "Sec-WebSocket-Extensions: permessage-deflate\r\n\r\n")]

-- An empty message that is NULL is not compressed, and the others arrive.
def packedCalls : List Sending :=
  [⟨.text, .bytes (ascii "hi")⟩, ⟨.binary, .null 0⟩, ⟨.ping, .bytes (ascii "p")⟩,
    ⟨.binary, .bytes (List.replicate 600 0x41)⟩]

theorem decompressed_as_sent_stored :
    ∃ pushes : List Bytes, pushes.length = 3 ∧
      heard ((run storingServer storingAccepted (pushes.map .data)).log.drop
        storingAccepted.log.length) = ([ascii "hi", List.replicate 600 0x41], []) := by
  let wired := (shipped
    ((sendAll storingClient storingOpened packedCalls).log.drop storingOpened.log.length)).flatten
  obtain ⟨ho, hd, hdf, hproper, hsmooth, hidle, hinf, hwire, hsmall, hgrant, hp, hc, hoffered⟩ :
      storingOpened.state = .opened ∧ storingOpened.destroyed = false ∧
      storingOpened.deflate = some storingDeflate ∧ (∀ s ∈ packedCalls, s.Proper) ∧
      smoothAll storingClient storingOpened packedCalls = true ∧ Idle storingAccepted ∧
      storingAccepted.inflater = some ((.start, []), false) ∧ (pieces wired).flatten ++ [] = wired ∧
      (∀ d ∈ pieces wired, d.length ≤ storingServer.recvCap / 2) ∧
      Event.alloc false ∉ (run storingServer storingAccepted ((pieces wired).map .data)).log.drop
        storingAccepted.log.length ∧
      (run storingServer storingAccepted ((pieces wired).map .data)).state ≠ .closed ∧
      (sendAll storingClient storingOpened packedCalls).state ≠ .closed ∧
      offered storingClient storingOpened packedCalls = [ascii "hi", List.replicate 600 0x41] := by
    decide +kernel
  refine ⟨pieces wired, rfl, ?_⟩
  rw [← hoffered]
  exact (decompressed_as_sent storingClient stored AtStart StoresAt zlibStoring_deflates stored_restarts
    storingOpened (by decide) ho hd storingDeflate hdf ⟨rfl, rfl⟩ packedCalls hproper hsmooth
    storingServer rfl storingServer_gentle rfl (by decide) (by decide) (StepsAt .start Block.step)
    zlibStoring_inflates storingAccepted hidle (.start, []) false hinf ⟨rfl, le_rfl, rfl⟩
    (fun h => by cases h) (pieces wired) [] hwire hsmall hgrant).2.2 rfl hp hc

end Sevent.Ws
