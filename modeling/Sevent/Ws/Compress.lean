import Sevent.Ws.Stored

-- The compressor of ws_deflate.c, in one call or chunk by chunk, over a zlib that keeps to its
-- documentation.
namespace Sevent.Ws

open Decoder

variable {σ δ : Type}

-- ---- zlib.h ----

-- A sync flush: all of the input is out, the stream is at a byte boundary and goes on.
structure Flushed (D : Decoder Byte Byte) (P : Bytes → Prop) (at_ : δ → Bytes → Bytes → Prop)
    (h t input : Bytes) (r : DeflateOut δ) : Prop where
  state : at_ r.state (h ++ r.out) (t ++ input)
  tail : deflateTail <:+ r.out
  text : D.text (h ++ r.out) = t ++ input
  place : P (h ++ r.out)

-- Raw deflate. `at_ d h t`: since its last reset the stream has given out `h` and taken `t`. An
-- output that leaves room in its buffer is all that there is.
structure Zlib.Deflates (z : Zlib σ δ) (D : Decoder Byte Byte) (P : Bytes → Prop)
    (at_ : δ → Bytes → Bytes → Prop) : Prop where
  init : ∀ {level bits d}, z.deflateInit level bits = some d → at_ d [] []
  reset : ∀ d, at_ (z.deflateReset d) [] []
  going : ∀ {d h t}, at_ d h t → D.Going [] h
  took : ∀ {d h t}, at_ d h t → ∀ input room, (z.deflate d input room .noFlush).res = .ok →
    (z.deflate d input room .noFlush).out.length < room →
    at_ (z.deflate d input room .noFlush).state (h ++ (z.deflate d input room .noFlush).out) (t ++ input)
  flushed : ∀ {d h t}, at_ d h t → ∀ input room, (z.deflate d input room .syncFlush).res = .ok →
    (z.deflate d input room .syncFlush).out.length < room →
    Flushed D P at_ h t input (z.deflate d input room .syncFlush)

-- ---- chunk by chunk ----

def compressReset (z : Zlib σ δ) (df : Deflate σ δ) : Deflate σ δ :=
  { df with deflate := z.deflateReset df.deflate }

def compressStream (z : Zlib σ δ) (df : Deflate σ δ) (input : Option Bytes) (outCap : Nat) :
    Option Bytes × Deflate σ δ :=
  match input with
  | none => (none, df)
  | some input =>
      if input.length > uintMax ∨ outCap > uintMax then (none, df)
      else
        let r := z.deflate df.deflate input outCap .noFlush
        if r.res ≠ .ok then (none, { df with deflate := z.deflateReset r.state })
        else (some r.out, { df with deflate := r.state })

def compressEnd (z : Zlib σ δ) (df : Deflate σ δ) (outCap : Nat) : Option Bytes × Deflate σ δ :=
  if outCap > uintMax then (none, df)
  else
    let r := z.deflate df.deflate [] outCap .syncFlush
    if r.res ≠ .ok ∨ r.out.length < 4 then
      (none, { df with deflate := z.deflateReset r.state })
    else
      (some (r.out.take (r.out.length - 4)),
        { df with
          deflate := if df.clientNoContextTakeover then z.deflateReset r.state else r.state })

-- ---- where the compressor stands ----

-- A decoder that has read `H` has the whole text but what the compressor holds back: it is `t` with
-- that. The stream may have begun anew behind `H₀`.
def Standing (D : Decoder Byte Byte) (P : Bytes → Prop) (at_ : δ → Bytes → Bytes → Prop) (d : δ)
    (H t : Bytes) : Prop :=
  ∃ H₀ h t', H = H₀ ++ h ∧ P H₀ ∧ at_ d h t' ∧ t = D.text H₀ ++ t'

-- Between two messages.
structure InStep (D : Decoder Byte Byte) (P : Bytes → Prop) (at_ : δ → Bytes → Bytes → Prop) (d : δ)
    (H : Bytes) : Prop where
  place : P H
  standing : Standing D P at_ d H (D.text H)

section

variable {z : Zlib σ δ} {D : Decoder Byte Byte} {P : Bytes → Prop} {at_ : δ → Bytes → Bytes → Prop}
variable (hz : z.Deflates D P at_) (hr : D.Restarts P)
variable {d : δ} {H t : Bytes}

include hz in
theorem InStep.restart (hp : P H) : InStep D P at_ (z.deflateReset d) H :=
  ⟨hp, H, [], [], (List.append_nil H).symm, hp, hz.reset d, (List.append_nil _).symm⟩

include hz hr in
theorem Standing.took (hs : Standing D P at_ d H t) {input : Bytes} {room : Nat}
    (hok : (z.deflate d input room .noFlush).res = .ok)
    (hlt : (z.deflate d input room .noFlush).out.length < room) :
    D.Going H (z.deflate d input room .noFlush).out ∧
      Standing D P at_ (z.deflate d input room .noFlush).state
        (H ++ (z.deflate d input room .noFlush).out) (t ++ input) := by
  obtain ⟨H₀, h, t', rfl, hp, ha, rfl⟩ := hs
  have htook := hz.took ha input room hok hlt
  exact ⟨(hr.going hp (hz.going htook)).rest, H₀, _, _, List.append_assoc _ _ _, hp, htook,
    List.append_assoc _ _ _⟩

include hz hr in
-- What a decoder gets out of a sync flush.
theorem Standing.flushed (hs : Standing D P at_ d H t) {input : Bytes} {room : Nat}
    (hok : (z.deflate d input room .syncFlush).res = .ok)
    (hlt : (z.deflate d input room .syncFlush).out.length < room) :
    let r := z.deflate d input room .syncFlush
    deflateTail <:+ r.out ∧ D.Going H r.out ∧ D.text (H ++ r.out) = t ++ input ∧
      InStep D P at_ r.state (H ++ r.out) := by
  obtain ⟨H₀, h, t', rfl, hp, ha, rfl⟩ := hs
  have hf := hz.flushed ha input room hok hlt
  generalize z.deflate d input room .syncFlush = r at *
  have hgo := hz.going hf.state
  have htext : D.text (H₀ ++ h ++ r.out) = D.text H₀ ++ t' ++ input := by
    have hstatus : D.status ([] ++ (h ++ r.out)) = .going := hgo _ List.prefix_rfl
    rw [List.append_assoc, hr.text hp (by rw [← List.nil_append (h ++ r.out), hstatus]; decide),
      hf.text, List.append_assoc]
  refine ⟨hf.tail, (hr.going hp hgo).rest, htext, ?_, H₀, h ++ r.out, t' ++ input, ?_, hp, hf.state, ?_⟩
  · rw [List.append_assoc]
    exact hr.append hp hf.place
  · exact List.append_assoc _ _ _
  · rw [htext, List.append_assoc]

-- ---- one message ----

-- The payload of a message, or the end of it: behind `H` a decoder has all of the text `t`, and the
-- compressor goes on where a decoder that has kept its context expects it, or anywhere if it has
-- dropped its own.
structure Packs (D : Decoder Byte Byte) (P : Bytes → Prop) (at_ : δ → Bytes → Bytes → Prop) (H t : Bytes)
    (comp : Bytes) (df : Deflate σ δ) : Prop where
  going : D.Going H (comp ++ deflateTail)
  text : D.text (H ++ (comp ++ deflateTail)) = t
  inStep : InStep D P at_ df.deflate (H ++ (comp ++ deflateTail))
  anew : df.clientNoContextTakeover = true → ∀ H', P H' → InStep D P at_ df.deflate H'

include hz hr in
-- The end of both routes: the tail is taken off, and the context is dropped if that was agreed.
theorem Standing.packs (hs : Standing D P at_ d H t) {input : Bytes} {room : Nat}
    (hok : (z.deflate d input room .syncFlush).res = .ok)
    (hlt : (z.deflate d input room .syncFlush).out.length < room) (df : Deflate σ δ) :
    let r := z.deflate d input room .syncFlush
    Packs D P at_ H (t ++ input) (r.out.take (r.out.length - 4))
      { df with deflate := if df.clientNoContextTakeover then z.deflateReset r.state else r.state } := by
  obtain ⟨⟨b, hb⟩, hgo, htext, hin⟩ := hs.flushed hz hr hok hlt
  generalize z.deflate d input room .syncFlush = r at *
  have htake : r.out.take (r.out.length - 4) = b := by
    rw [← hb, List.length_append]
    exact List.take_left
  dsimp only
  rw [htake]
  refine ⟨by rwa [hb], by rw [hb, htext], ?_, fun hnct H' hp => ?_⟩
  · rw [hb]
    dsimp only
    split_ifs
    · exact InStep.restart hz hin.place
    · exact hin
  · dsimp only
    rw [if_pos hnct]
    exact InStep.restart hz hp

variable {df : Deflate σ δ}

-- What is left of a compressor that has failed, or was not asked.
def Failed (z : Zlib σ δ) (df df' : Deflate σ δ) : Prop :=
  df' = df ∨ ∃ d, df' = { df with deflate := z.deflateReset d }

theorem Failed.kept {df' : Deflate σ δ} (h : Failed z df df') :
    df'.clientNoContextTakeover = df.clientNoContextTakeover := by
  rcases h with rfl | ⟨d, rfl⟩ <;> rfl

include hz in
theorem Failed.inStep {df' : Deflate σ δ} (h : Failed z df df') (hs : InStep D P at_ df.deflate H) :
    InStep D P at_ df'.deflate H := by
  rcases h with rfl | ⟨d, rfl⟩
  · exact hs
  · exact InStep.restart hz hs.place

variable (z df) in
-- ws_deflate_compress, whose input may be too long or whose output may fail to end in a tail.
theorem compress_cases (input : Bytes) (cap : Nat) :
    (∃ df', compress z df (some input) cap = (none, df') ∧ Failed z df df') ∨
      cap ≤ uintMax ∧ (z.deflate df.deflate input cap .syncFlush).res = .ok ∧
      compress z df (some input) cap =
        (some ((z.deflate df.deflate input cap .syncFlush).out.take
            ((z.deflate df.deflate input cap .syncFlush).out.length - 4)),
          { df with
            deflate := if df.clientNoContextTakeover then
                z.deflateReset (z.deflate df.deflate input cap .syncFlush).state
              else (z.deflate df.deflate input cap .syncFlush).state }) := by
  unfold compress
  dsimp only
  by_cases hlong : input.length > uintMax ∨ cap > uintMax
  · exact .inl ⟨df, if_pos hlong, .inl rfl⟩
  rw [if_neg hlong]
  rw [not_or, Nat.not_lt, Nat.not_lt] at hlong
  generalize z.deflate df.deflate input cap .syncFlush = r
  by_cases hbad : r.res ≠ .ok ∨ r.out.length < 4
  · exact .inl ⟨_, if_pos hbad, .inr ⟨r.state, rfl⟩⟩
  · rw [if_neg hbad]
    rw [not_or, not_not] at hbad
    exact .inr ⟨hlong.2, hbad.1, rfl⟩

include hz hr in
theorem compress_packs (hs : InStep D P at_ df.deflate H) {input comp : Bytes} {cap : Nat}
    {df' : Deflate σ δ}
    (hlt : (z.deflate df.deflate input cap .syncFlush).res = .ok →
      (z.deflate df.deflate input cap .syncFlush).out.length < cap)
    (h : compress z df (some input) cap = (some comp, df')) :
    Packs D P at_ H (D.text H ++ input) comp df' := by
  rcases compress_cases z df input cap with ⟨df'', heq, -⟩ | ⟨-, hok, heq⟩
  · cases h.symm.trans heq
  · cases h.symm.trans heq
    exact hs.standing.packs hz hr hok (hlt hok) df

-- ---- the message in chunks ----

-- The calls that compress a message chunk by chunk, with the room that each of them is given.
def compressChunks (z : Zlib σ δ) (df : Deflate σ δ) (room : Nat) :
    List (Bytes × Nat) → Option Bytes × Deflate σ δ
  | [] => compressEnd z df room
  | (chunk, cap) :: rest =>
      match compressStream z df (some chunk) cap with
      | (none, df) => (none, df)
      | (some out, df) =>
          let r := compressChunks z df room rest
          (r.1.map (out ++ ·), r.2)

-- No output fills its buffer.
def chunksFit (z : Zlib σ δ) (df : Deflate σ δ) (room : Nat) : List (Bytes × Nat) → Bool
  | [] => (z.deflate df.deflate [] room .syncFlush).out.length < room
  | (chunk, cap) :: rest =>
      (z.deflate df.deflate chunk cap .noFlush).out.length < cap &&
        chunksFit z (compressStream z df (some chunk) cap).2 room rest

-- One call with a chunk.
theorem compressStream_some {df' : Deflate σ δ} {chunk out : Bytes} {cap : Nat}
    (h : compressStream z df (some chunk) cap = (some out, df')) :
    (z.deflate df.deflate chunk cap .noFlush).res = .ok ∧
      out = (z.deflate df.deflate chunk cap .noFlush).out ∧
      df' = { df with deflate := (z.deflate df.deflate chunk cap .noFlush).state } := by
  simp only [compressStream] at h
  by_cases hlong : chunk.length > uintMax ∨ cap > uintMax
  · rw [if_pos hlong] at h
    cases h
  rw [if_neg hlong] at h
  by_cases hbad : (z.deflate df.deflate chunk cap .noFlush).res ≠ .ok
  · rw [if_pos hbad] at h
    cases h
  · rw [if_neg hbad] at h
    cases h
    exact ⟨not_not.mp hbad, rfl, rfl⟩

include hz hr in
theorem compressEnd_packs (hs : Standing D P at_ df.deflate H t) {room : Nat} {comp : Bytes}
    {df' : Deflate σ δ} (hlt : (z.deflate df.deflate [] room .syncFlush).out.length < room)
    (h : compressEnd z df room = (some comp, df')) : Packs D P at_ H t comp df' := by
  unfold compressEnd at h
  by_cases hlong : room > uintMax
  · rw [if_pos hlong] at h
    cases h
  rw [if_neg hlong] at h
  by_cases hbad : (z.deflate df.deflate [] room .syncFlush).res ≠ .ok ∨
      (z.deflate df.deflate [] room .syncFlush).out.length < 4
  · rw [if_pos hbad] at h
    cases h
  · rw [if_neg hbad] at h
    rw [not_or, not_not] at hbad
    cases h
    have hp := hs.packs hz hr hbad.1 hlt df
    rwa [List.append_nil] at hp

include hz hr in
-- Whatever the chunks, they are packed as one message is: a decoder reads all of them behind `H`.
theorem compressChunks_packs {room : Nat} {chunks : List (Bytes × Nat)}
    (hs : Standing D P at_ df.deflate H t) (hfit : chunksFit z df room chunks = true) {comp : Bytes}
    {df' : Deflate σ δ} (h : compressChunks z df room chunks = (some comp, df')) :
    Packs D P at_ H (t ++ (chunks.map Prod.fst).flatten) comp df' := by
  induction chunks generalizing df H t comp with
  | nil =>
      have hp := compressEnd_packs hz hr hs (of_decide_eq_true hfit) h
      rwa [List.map_nil, List.flatten_nil, List.append_nil]
  | cons c rest ih =>
      obtain ⟨hroom, hfit⟩ := Bool.and_eq_true_iff.mp hfit
      simp only [compressChunks] at h
      rcases hc : compressStream z df (some c.1) c.2 with ⟨_ | out, df₁⟩
      · rw [hc] at h
        cases h
      rw [hc] at h hfit
      obtain ⟨hok, rfl, rfl⟩ := compressStream_some hc
      obtain ⟨hgo, htook⟩ := hs.took hz hr hok (of_decide_eq_true hroom)
      dsimp only at h
      rcases hrest : compressChunks z _ room rest with ⟨_ | comp', df₂⟩
      · rw [hrest] at h
        cases h
      rw [hrest] at h
      cases h
      have hp := ih htook hfit hrest
      refine ⟨?_, ?_, ?_, hp.anew⟩
      · rw [List.append_assoc]
        exact hgo.concat hp.going
      · rw [List.append_assoc, ← List.append_assoc H, hp.text, List.map_cons, List.flatten_cons,
          List.append_assoc]
      · rw [List.append_assoc, ← List.append_assoc H]
        exact hp.inStep

end

-- The two routes mean the same: what a decoder that has read `H` gets is the message, and both
-- compressors go on from there. After a failure, ws_deflate_compress_reset leads back to `H`.
theorem chunked_as_oneshot (z : Zlib σ δ) (D : Decoder Byte Byte) (P : Bytes → Prop)
    (at_ : δ → Bytes → Bytes → Prop) (hz : z.Deflates D P at_) (hr : D.Restarts P) (df : Deflate σ δ)
    (H : Bytes) (hs : InStep D P at_ df.deflate H) (chunks : List (Bytes × Nat)) (room cap : Nat)
    (hfit : chunksFit z df room chunks = true)
    (hlt : (z.deflate df.deflate (chunks.map Prod.fst).flatten cap .syncFlush).out.length < cap) :
    (∀ comp df₁ comp' df₂, compressChunks z df room chunks = (some comp, df₁) →
      compress z df (some (chunks.map Prod.fst).flatten) cap = (some comp', df₂) →
      D.Going H (comp ++ deflateTail) ∧ D.Going H (comp' ++ deflateTail) ∧
      D.text (H ++ (comp ++ deflateTail)) = D.text H ++ (chunks.map Prod.fst).flatten ∧
      D.text (H ++ (comp' ++ deflateTail)) = D.text H ++ (chunks.map Prod.fst).flatten ∧
      InStep D P at_ df₁.deflate (H ++ (comp ++ deflateTail)) ∧
      InStep D P at_ df₂.deflate (H ++ (comp' ++ deflateTail))) ∧
    ∀ df', compressChunks z df room chunks = (none, df') →
      InStep D P at_ (compressReset z df').deflate H := by
  refine ⟨fun comp df₁ comp' df₂ h h' => ?_, fun df' _ => InStep.restart hz hs.place⟩
  have hc := compressChunks_packs hz hr hs.standing hfit h
  have ho := compress_packs hz hr hs (fun _ => hlt) h'
  exact ⟨hc.going, ho.going, hc.text, ho.text, hc.inStep, ho.inStep⟩

-- ---- a compressor that stores ----

-- The text waits for a flush, which puts it in one block.
def storing (held input : Bytes) (room : Nat) : Flush → DeflateOut Bytes
  | .noFlush => ⟨.ok, held ++ input, []⟩
  | .syncFlush =>
      if (held ++ input).length < 65536 ∧
          (storedMessage (held ++ input) ++ deflateTail).length ≤ room then
        ⟨.ok, [], storedMessage (held ++ input) ++ deflateTail⟩
      else ⟨.error, held, []⟩

def zlibStoring : Zlib (Block × Bytes) Bytes where
  inflateInit := zlibStored.inflateInit
  inflate := zlibStored.inflate
  inflateReset := zlibStored.inflateReset
  deflateInit _ bits := if 9 ≤ bits ∧ bits ≤ 15 then some [] else none
  deflateBound _ n := n + 13
  deflate := storing
  deflateReset _ := []
  backlog := zlibStored.backlog
  consumed_le := zlibStored.consumed_le
  out_le := zlibStored.out_le
  progress := zlibStored.progress
  backlog_le := zlibStored.backlog_le

theorem zlibStoring_inflates : zlibStoring.Inflates stored (StepsAt .start Block.step) :=
  ⟨zlibStored_inflates.init, zlibStored_inflates.reset, zlibStored_inflates.before,
    zlibStored_inflates.error, zlibStored_inflates.turn⟩

def StoresAt (held h t : Bytes) : Prop := AtStart h ∧ t = stored.text h ++ held

-- A stream that is over or broken stays so.
theorem Block.going_of_going (t : Block) (x : Bytes)
    (h : ((steps Block.step t x).1).status = .going) : t.status = .going := by
  induction x generalizing t with
  | nil => exact h
  | cons b x ih =>
      have hnext := ih _ h
      cases t <;> first | rfl | cases hnext

theorem AtStart.going {h : Bytes} (hs : AtStart h) : stored.Going [] h := by
  rintro y ⟨t, rfl⟩
  refine Block.going_of_going _ t ?_
  rw [AtStart, steps_append] at hs
  exact congrArg Block.status hs

theorem Block.steps_data (data : Bytes) :
    steps Block.step (.upTo false data.length) data = (.start, data) := by
  induction data with
  | nil => rfl
  | cons b data ih =>
      have hstep : Block.step (.upTo false (b :: data).length) b = (.upTo false data.length, [b]) := rfl
      rw [steps, hstep, ih]
      rfl

theorem storedMessage_steps (data : Bytes) (hlen : data.length < 65536) :
    steps Block.step .start (storedMessage data ++ deflateTail) = (.start, data) := by
  have hnum : data.length % 256 + 256 * (data.length / 256 % 256) = data.length := by omega
  have hhead : steps Block.step .start [0x00, UInt8.ofNat data.length, UInt8.ofNat (data.length / 256),
      ~~~UInt8.ofNat data.length, ~~~UInt8.ofNat (data.length / 256)] =
      (.upTo false data.length, []) := by
    simp [steps, Block.step, hnum]
  have htail : steps Block.step .start ([0x00] ++ deflateTail) = (.start, []) := by decide
  rw [storedMessage, List.append_assoc, List.append_assoc, steps_append, hhead, steps_append,
    Block.steps_data, htail, List.nil_append, List.append_nil]

theorem zlibStoring_deflates : zlibStoring.Deflates stored AtStart StoresAt where
  init := by
    intro level bits d h
    simp only [zlibStoring] at h
    split at h
    · cases h
      exact ⟨rfl, rfl⟩
    · cases h
  reset _ := ⟨rfl, rfl⟩
  going h := h.1.going
  took := by
    rintro d h t ⟨hs, rfl⟩ input room - -
    show StoresAt (d ++ input) (h ++ []) _
    rw [List.append_nil]
    exact ⟨hs, List.append_assoc _ _ _⟩
  flushed := by
    rintro d h t ⟨hs, rfl⟩ input room hok -
    simp only [zlibStoring, storing] at hok ⊢
    split_ifs at hok ⊢ with hfit
    have hsteps := storedMessage_steps (d ++ input) hfit.1
    have hplace : AtStart (h ++ (storedMessage (d ++ input) ++ deflateTail)) := by
      rw [AtStart, steps_append, hs, hsteps]
    have htext : stored.text (h ++ (storedMessage (d ++ input) ++ deflateTail)) =
        stored.text h ++ (d ++ input) := by
      rw [stored, ofSteps_text, steps_append, hs, hsteps]
      rfl
    refine ⟨⟨hplace, ?_⟩, List.suffix_append _ _, ?_, hplace⟩
    · rw [htext, List.append_nil, List.append_assoc]
    · rw [htext, List.append_assoc]

def storingDeflate : Deflate (Block × Bytes) Bytes := ⟨[], (.start, []), false, false, 15, 15⟩

theorem storing_inStep : InStep stored AtStart StoresAt storingDeflate.deflate [] :=
  ⟨rfl, [], [], [], rfl, rfl, ⟨rfl, rfl⟩, rfl⟩

theorem chunked_as_oneshot_stored :
    ∃ comp df₁ comp' df₂,
      compressChunks zlibStoring storingDeflate 64 [([0x41, 0x42], 16), ([0x43], 16)] = (some comp, df₁) ∧
      compress zlibStoring storingDeflate (some [0x41, 0x42, 0x43]) 64 = (some comp', df₂) ∧
      stored.text (comp ++ deflateTail) = [0x41, 0x42, 0x43] ∧
      stored.text (comp' ++ deflateTail) = [0x41, 0x42, 0x43] := by
  have hchunks : compressChunks zlibStoring storingDeflate 64 [([0x41, 0x42], 16), ([0x43], 16)] =
      (some (storedMessage [0x41, 0x42, 0x43]), storingDeflate) := rfl
  have hone : compress zlibStoring storingDeflate (some [0x41, 0x42, 0x43]) 64 =
      (some (storedMessage [0x41, 0x42, 0x43]), storingDeflate) := rfl
  obtain ⟨-, -, htext, htext', -, -⟩ := (chunked_as_oneshot zlibStoring stored AtStart StoresAt
    zlibStoring_deflates stored_restarts storingDeflate [] storing_inStep
    [([0x41, 0x42], 16), ([0x43], 16)] 64 64 (by decide) (by decide)).1 _ _ _ _ hchunks hone
  exact ⟨_, _, _, _, hchunks, hone, htext, htext'⟩

end Sevent.Ws
