import Sevent.Ws.Stored

-- Compressed messages: the payloads go through inflate, and what on_message is given between two
-- fin callbacks are their texts.
namespace Sevent.Ws

variable {σ δ : Type}

open Conn

-- ---- the stream that the messages make ----

-- From `h` on, the messages are read up to `h'`: the decoder finds the text of each in its payload
-- and the tail, and leaves what may lie behind the end of the stream.
def Decodes (D : Decoder Byte Byte) (nct : Bool) : Bytes → List (Bytes × Bytes) → Bytes → Prop
  | h, [], h' => h = h'
  | h, m :: rest, h' => ∃ x, D.Takes h x (m.1 ++ deflateTail) ∧ D.text (h ++ x) = D.text h ++ m.2 ∧
      Decodes D nct (rebased nct (h ++ x)) rest h'

theorem Decodes.concat {D : Decoder Byte Byte} {nct : Bool} {a h x : Bytes} {done : List (Bytes × Bytes)}
    {m : Bytes × Bytes} (hr : Decodes D nct a done h) (ht : D.Takes h x (m.1 ++ deflateTail))
    (htext : D.text (h ++ x) = D.text h ++ m.2) : Decodes D nct a (done ++ [m]) (rebased nct (h ++ x)) := by
  induction done generalizing a with
  | nil =>
      cases hr
      exact ⟨x, ht, htext, rfl⟩
  | cons m' done ih =>
      obtain ⟨y, hy, htext', hr⟩ := hr
      exact ⟨y, hy, htext', ih hr⟩

-- The new text of a stream is what its parts bring.
theorem text_grows (D : Decoder Byte Byte) (h x y : Bytes) :
    (D.text (h ++ (x ++ y))).drop (D.text h).length =
      (D.text (h ++ x)).drop (D.text h).length ++
        (D.text (h ++ x ++ y)).drop (D.text (h ++ x)).length := by
  obtain ⟨t, ht⟩ := D.text_prefix h x
  obtain ⟨u, hu⟩ := D.text_prefix (h ++ x) y
  rw [← List.append_assoc, ← hu, List.drop_left, ← ht, List.append_assoc, List.drop_left, List.drop_left]

-- ---- what a run must not show ----

-- A large frame overtakes bytes in frag_buf, a message ends with a full frag_buf, or the output
-- buffer is not allocated.
def Event.loses (recvCap : Nat) : Event → Bool
  | .streamFrame .stream fragLen => fragLen != 0
  | .fragFlush true true fragLen => fragLen == recvCap
  | .alloc false => true
  | _ => false

-- A compressed message comes in several frames, or in a large one.
def Event.splits : Event → Bool
  | .dataFrame _ _ false true => true
  | .streamFrame .none _ => true
  | _ => false

-- Only messages whose numbers are in `W` come in pieces.
def Whole (W : Nat → Prop) (log : List Event) : Prop :=
  Trace.AtEach (fun past e => e.splits = true → W (heard past).1.length) log

namespace Sink

-- `done` have been heard; inflate stands behind `part` of the next message, which begins at `h`.
structure Reached (D : Decoder Byte Byte) (at_ : σ → Bytes → Nat → Prop) (nct : Bool) (W : Nat → Prop)
    (c : Conn σ δ) (n : Nat) (done rest : List (Bytes × Bytes)) (part h h' : Bytes) (s : σ) : Prop where
  log : n ≤ c.log.length
  before : Decodes D nct [] done h
  behind : Decodes D nct h rest h'
  whole : part = [] ∨ W done.length
  inflater : c.inflater = some (s, nct)
  state : at_ s (h ++ part) (D.text (h ++ part)).length
  heard : heard (c.log.drop n) =
    (done.map Prod.snd, (D.text (h ++ part)).drop (D.text h).length)

section

variable {env : Env σ δ} (hg : env.Gentle) (hm : env.onMessage.isSome = true)
variable {D : Decoder Byte Byte} {at_ : σ → Bytes → Nat → Prop} (hz : env.zlib.Inflates D at_)
variable {nct : Bool} {W : Nat → Prop} {n : Nat} {c c' : Conn σ δ}
variable {done rest : List (Bytes × Bytes)} {part h h' : Bytes} {s : σ}

theorem Reached.keep (hr : Reached D at_ nct W c n done rest part h h' s) (hs : Unheard c c')
    (hinf : c'.inflater = c.inflater) : Reached D at_ nct W c' n done rest part h h' s := by
  obtain ⟨hle, heq⟩ := heard_unheard hr.log hs
  exact ⟨hle, hr.before, hr.behind, hr.whole, hinf.trans hr.inflater, hr.state, heq.trans hr.heard⟩

theorem Reached.told (hr : Reached D at_ nct W c n done rest part h h' s) {s' : σ} {data : Bytes}
    (ht : Told c c' ((D.text (h ++ part ++ data)).drop (D.text (h ++ part)).length))
    (hw : W done.length) (hinf : c'.inflater = some (s', nct))
    (hs : at_ s' (h ++ part ++ data) (D.text (h ++ part ++ data)).length) :
    Reached D at_ nct W c' n done rest (part ++ data) h h' s' := by
  obtain ⟨hle, heq⟩ := ht n hr.log
  refine ⟨hle, hr.before, hr.behind, .inr hw, hinf, by rwa [← List.append_assoc], heq.trans ?_⟩
  rw [hr.heard, text_grows]

-- The message is over.
theorem Reached.fined {m : Bytes × Bytes} {x y : Bytes}
    (hr : Reached D at_ nct W c n done (m :: rest) part h h' s) {s' : σ}
    (ht : Fined c c' ((D.text (h ++ part ++ y)).drop (D.text (h ++ part)).length))
    (hx : x = part ++ y) (htakes : D.Takes h x (m.1 ++ deflateTail))
    (htext : D.text (h ++ x) = D.text h ++ m.2)
    (hrest : Decodes D nct (rebased nct (h ++ x)) rest h') (hinf : c'.inflater = some (s', nct))
    (hs : at_ s' (rebased nct (h ++ x)) (D.text (rebased nct (h ++ x))).length) :
    Reached D at_ nct W c' n (done ++ [m]) rest [] (rebased nct (h ++ x)) h' s' := by
  obtain ⟨hle, heq⟩ := ht n hr.log
  refine ⟨hle, hr.before.concat htakes htext, hrest, .inl rfl, hinf, by rwa [List.append_nil],
    heq.trans ?_⟩
  rw [hr.heard, ← text_grows, ← hx, htext, List.drop_left, List.append_nil, List.drop_length,
    List.map_append]
  rfl

-- The log of a sink that has been reached begins with the one at the start.
theorem Reached.emit_log (hr : Reached D at_ nct W c n done rest part h h' s) (e : Event) :
    (c.emit e).log.drop n = c.log.drop n ++ [e] :=
  List.drop_append_of_le_length hr.log

theorem whole_concat (log : List Event) (e : Event) :
    Whole W (log ++ [e]) ↔ Whole W log ∧ (e.splits = true → W (heard log).1.length) :=
  Trace.atEach_concat _ log e

-- A message begins to come in pieces.
theorem Reached.splits (hr : Reached D at_ nct W c n done rest part h h' s) {e : Event}
    (he : e.splits = true) (hw : Whole W ((c.emit e).log.drop n)) : W done.length := by
  rw [hr.emit_log, whole_concat, hr.heard, List.length_map] at hw
  exact hw.2 he

theorem piece_le {part data t whole : Bytes} (h : part ++ data ++ t = whole) :
    data.length ≤ whole.length := by
  rw [← h]
  simp only [List.length_append]
  omega

theorem fits_room {n size cap : Nat} (hcap : n ≤ cap) (hle : n ≤ size)
    (h : min cap size + 4 < 4294967296) : n + 4 < 4294967296 := by
  omega

-- on_message behind inflate. The messages in `W` do not end the stream before their last byte.
def packed (n : Nat) (nct : Bool) (ms : List (Bytes × Bytes)) (W : Nat → Prop)
    (hsize : ∀ m ∈ ms, min env.recvCap m.1.length + 4 < 4294967296)
    (hW : ∀ done m rest h, ms = done ++ m :: rest → Decodes D nct [] done h → W done.length →
      D.Going h m.1) : Sink env where
  compressed := true
  since := n
  all := ms
  Clean log := (∀ e ∈ log.drop n, e.loses env.recvCap = false) ∧ Whole W (log.drop n)
  Split done := W done.length
  Holds c done part := ∃ rest h h' s, ms = done ++ rest ∧
    Reached D at_ nct W c n done rest part h h' s
  clean_mono := by
    rintro log _ ⟨more, rfl⟩ ⟨hlose, hw⟩
    rw [List.drop_append] at hlose hw
    exact ⟨fun e he => hlose e (List.mem_append_left _ he), ((Trace.atEach_append _ _ _).mp hw).1⟩
  clean_stream := by
    rintro c done part k ⟨rest, h, h', s, -, hr⟩ ⟨hlose, -⟩
    rw [hr.emit_log] at hlose
    simpa [Event.loses] using hlose (.streamFrame .stream k) (by simp)
  clean_flush := by
    rintro - c done part k ⟨rest, h, h', s, -, hr⟩ ⟨hlose, -⟩
    rw [hr.emit_log] at hlose
    simpa [Event.loses] using hlose (.fragFlush true true k) (by simp)
  clean_first := by
    rintro - c done opcode len ⟨rest, h, h', s, -, hr⟩ ⟨-, hw⟩
    exact hr.splits rfl hw
  clean_large := by
    rintro - c done k ⟨rest, h, h', s, -, hr⟩ ⟨-, hw⟩
    exact hr.splits rfl hw
  keep := by
    rintro c c' done part hs hinf ⟨rest, h, h', s, hall, hr⟩
    exact ⟨rest, h, h', s, hall, hr.keep hs hinf⟩
  ready := by
    rintro - c done part ⟨rest, h, h', s, -, hr⟩
    have hsome : c.inflater.isSome = true := by rw [hr.inflater]; rfl
    rwa [Conn.inflater, Option.isSome_map] at hsome
  feed := fun hs => by cases hs
  finish := fun hs => by cases hs
  chunk := by
    rintro - c done part m rest hd ⟨rest', h, h', s, hall', hr⟩ hall hw data isBin ⟨t, ht⟩ hlen
      ⟨hlose, -⟩
    obtain rfl : rest' = m :: rest := List.append_cancel_left (hall'.symm.trans hall)
    have hgo : D.Going h (part ++ (data ++ t)) := by
      rw [← List.append_assoc, ht]
      exact hW done m rest h hall hr.before hw
    have hfits := fits_room hlen (piece_le ht) (hsize m (hall ▸ by simp))
    obtain ⟨s', c', heq, hs', htold, hinf⟩ := decompressStreamChunk_takes hg hm hz data isBin hd
      hr.inflater hr.state hgo.rest.part (Nat.lt_of_add_right_lt hfits) hr.log fun hmem => by
        cases hlose _ hmem
    rw [heq]
    exact ⟨rfl, m :: rest, h, h', s', hall, hr.told htold hw hinf hs'⟩
  flush := by
    rintro - c done m rest hd hsent ⟨rest', h, h', s, hall', hr⟩ hall hw isBin ⟨hlose, -⟩
    obtain rfl : rest' = m :: rest := List.append_cancel_left (hall'.symm.trans hall)
    obtain ⟨x, htakes, htext, hrest⟩ := hr.behind
    obtain ⟨y, hx, hy⟩ := htakes.rest (hW done m rest h hall hr.before hw)
    obtain ⟨s', c', heq, hs', hfined, hinf⟩ := decompressStreamEnd_takes hg hm hz isBin hd hsent
      hr.inflater hr.state hy hr.log fun hmem => by cases hlose _ hmem
    rw [heq]
    rw [List.append_assoc, ← hx] at hs'
    exact ⟨rest, _, h', s', by rw [hall]; simp, hr.fined hfined hx htakes htext hrest hinf hs'⟩
  oneshot := by
    rintro - c done m rest hd ⟨rest', h, h', s, hall', hr⟩ hall isBin hlen ⟨hlose, -⟩
    obtain rfl : rest' = m :: rest := List.append_cancel_left (hall'.symm.trans hall)
    obtain ⟨x, htakes, htext, hrest⟩ := hr.behind
    have hfits := fits_room hlen le_rfl (hsize m (hall ▸ by simp))
    have htakes' := htakes
    rw [← List.append_nil h] at htakes'
    obtain ⟨s', c', heq, hs', hfined, hinf⟩ := decompressOneshot_takes hg hm hz m.1 isBin hd
      hr.inflater hr.state htakes' hfits hr.log fun hmem => by cases hlose _ hmem
    rw [heq]
    rw [List.append_nil] at hs'
    exact ⟨rfl, rest, _, h', s', by rw [hall]; simp,
      hr.fined hfined (List.nil_append x).symm htakes htext hrest hinf hs'⟩

include hg hm hz in
-- A run on an idle connection whose inflate is fresh.
theorem packed_right {ms : List (Bytes × Bytes)}
    (hsize : ∀ m ∈ ms, min env.recvCap m.1.length + 4 < 4294967296)
    (hW : ∀ done m rest h, ms = done ++ m :: rest → Decodes D nct [] done h → W done.length →
      D.Going h m.1)
    (hcap : 1024 ≤ env.recvCap) (hidle : Idle c) (hinf : c.inflater = some (s, nct)) (hs : at_ s [] 0)
    (hreads : Decodes D nct [] ms h') {fs : List WireFrame}
    (hlegal : Legal WireFrame.opensCompressed env.isClient false fs)
    (hmsgs : messages [] fs = ms.map Prod.fst) {pushes : List Bytes} {fut : Bytes}
    (hwire : pushes.flatten ++ fut = wire fs) (hsmall : ∀ d ∈ pushes, d.length ≤ env.recvCap / 2)
    (hlose : ∀ e ∈ (run env c (pushes.map .data)).log.drop c.log.length, e.loses env.recvCap = false)
    (hwhole : Whole W ((run env c (pushes.map .data)).log.drop c.log.length)) :
    Delivers (ms.map Prod.snd) (Sevent.Ws.heard ((run env c (pushes.map .data)).log.drop c.log.length)) ∧
      ((run env c (pushes.map .data)).state = .closed →
        Faulty c.log.length (run env c (pushes.map .data)).log) ∧
      (fut = [] → (run env c (pushes.map .data)).state ≠ .closed →
        Sevent.Ws.heard ((run env c (pushes.map .data)).log.drop c.log.length) =
          (ms.map Prod.snd, [])) := by
  have hstart : Reached D at_ nct W c c.log.length [] ms [] [] h' s :=
    ⟨le_rfl, rfl, hreads, .inl rfl, hinf, by rwa [List.append_nil, D.text_nil],
      by simp [Sevent.Ws.heard, D.text_nil]⟩
  obtain ⟨hright, hfault, hall⟩ := run_right (S := packed hg hm hz c.log.length nct ms W hsize hW)
    hg hm (by omega) hidle ⟨ms, [], h', s, rfl, hstart⟩ rfl hmsgs.symm hlegal hwire hsmall hcap
    ⟨hlose, hwhole⟩
  refine ⟨?_, hfault, fun hfut hc => ?_⟩
  · obtain ⟨done, part, rest, ⟨rest', h, h'', s', hsplit', hr⟩, hsplit, hpart⟩ := hright
    obtain rfl : rest' = rest := List.append_cancel_left (hsplit'.symm.trans hsplit)
    rw [hr.heard, hsplit', List.map_append]
    refine ⟨rest'.map Prod.snd, rfl, ?_⟩
    rcases hpart with rfl | ⟨m, more, rfl, hp⟩
    · left
      rw [List.append_nil, List.drop_length]
    obtain ⟨x, htakes, htext, -⟩ := hr.behind
    rcases hr.whole with rfl | hw
    · left
      rw [List.append_nil, List.drop_length]
    -- the part lies within what the decoder takes
    obtain ⟨y, hx, -⟩ := htakes.rest (hW done m more h hsplit' hr.before hw)
    obtain ⟨t, ht⟩ := hp
    obtain ⟨u, hu⟩ := D.text_prefix (h ++ part) (t ++ y)
    right
    refine ⟨m.2, more.map Prod.snd, rfl, u, ?_⟩
    rw [List.append_assoc, ← List.append_assoc part, ht, ← hx, htext] at hu
    rw [← List.drop_append_of_le_length (D.text_prefix h part).length_le, hu, List.drop_left]
  · obtain ⟨rest, h, h'', s', hsplit, hr⟩ := hall hfut hc
    rw [hr.heard, List.append_nil, List.drop_length]
    rfl

end

end Sink

-- ---- messages that end with a sync flush ----

-- Behind `h`, each payload and the tail are no end of the stream, and stand for the text.
def SyncFlushed (D : Decoder Byte Byte) (nct : Bool) : Bytes → List (Bytes × Bytes) → Prop
  | _, [] => True
  | h, m :: rest => D.Going h (m.1 ++ deflateTail) ∧
      D.text (h ++ (m.1 ++ deflateTail)) = D.text h ++ m.2 ∧
      SyncFlushed D nct (rebased nct (h ++ (m.1 ++ deflateTail))) rest

instance decidableSyncFlushed (nct : Bool) : ∀ h ms, Decidable (SyncFlushed stored nct h ms)
  | _, [] => inferInstanceAs (Decidable True)
  | h, m :: rest =>
      have := decidableSyncFlushed nct (rebased nct (h ++ (m.1 ++ deflateTail))) rest
      inferInstanceAs (Decidable (_ ∧ _ ∧ _))

theorem SyncFlushed.reads {D : Decoder Byte Byte} {nct : Bool} {h : Bytes} {ms : List (Bytes × Bytes)}
    (hms : SyncFlushed D nct h ms) : ∃ h', Decodes D nct h ms h' := by
  induction ms generalizing h with
  | nil => exact ⟨h, rfl⟩
  | cons m rest ih =>
      obtain ⟨hgo, htext, hrest⟩ := hms
      obtain ⟨h', hr⟩ := ih hrest
      exact ⟨h', m.1 ++ deflateTail, hgo.takes, htext, hr⟩

-- The stream behind the messages.
def behind (nct : Bool) : Bytes → List (Bytes × Bytes) → Bytes
  | h, [] => h
  | h, m :: rest => behind nct (rebased nct (h ++ (m.1 ++ deflateTail))) rest

theorem SyncFlushed.behind {D : Decoder Byte Byte} {nct : Bool} {a h : Bytes}
    {ms : List (Bytes × Bytes)} (hms : SyncFlushed D nct a ms) (hr : Decodes D nct a ms h) :
    h = Sevent.Ws.behind nct a ms := by
  induction ms generalizing a with
  | nil => exact hr.symm
  | cons m rest ih =>
      obtain ⟨hgo, -, hrest⟩ := hms
      obtain ⟨x, htakes, -, hr⟩ := hr
      rw [htakes.unique hgo.takes] at hr
      exact ih hrest hr

theorem SyncFlushed.going {D : Decoder Byte Byte} {nct : Bool} {a h : Bytes}
    {done rest : List (Bytes × Bytes)} {m : Bytes × Bytes} (hms : SyncFlushed D nct a (done ++ m :: rest))
    (hr : Decodes D nct a done h) : D.Going h m.1 := by
  induction done generalizing a with
  | nil =>
      cases hr
      exact hms.1.part
  | cons m' done ih =>
      obtain ⟨hgo, -, hrest⟩ := hms
      obtain ⟨x, htakes, -, hr⟩ := hr
      rw [htakes.unique hgo.takes] at hr
      exact ih hrest hr

namespace Conn

-- Messages that end with a sync flush are heard as their texts, in every run in which no large frame
-- overtakes bytes in frag_buf, no message ends when frag_buf is full and no output buffer fails to
-- be allocated.
theorem inflate_lossless (env : Env σ δ) (hg : env.Gentle) (hm : env.onMessage.isSome = true)
    (hcap : 1024 ≤ env.recvCap) (D : Decoder Byte Byte) (at_ : σ → Bytes → Nat → Prop)
    (hz : env.zlib.Inflates D at_) (c : Conn σ δ) (hidle : Idle c) (s : σ) (nct : Bool)
    (hinf : c.inflater = some (s, nct)) (hs : at_ s [] 0) (ms : List (Bytes × Bytes))
    (hms : SyncFlushed D nct [] ms) (hsize : ∀ m ∈ ms, min env.recvCap m.1.length + 4 < 4294967296)
    (fs : List WireFrame) (hlegal : Legal WireFrame.opensCompressed env.isClient false fs)
    (hmsgs : messages [] fs = ms.map Prod.fst) (pushes : List Bytes) (fut : Bytes)
    (hwire : pushes.flatten ++ fut = wire fs) (hsmall : ∀ d ∈ pushes, d.length ≤ env.recvCap / 2)
    (hroute : ∀ e ∈ (run env c (pushes.map .data)).log.drop c.log.length,
      e.loses env.recvCap = false) :
    Delivers (ms.map Prod.snd) (heard ((run env c (pushes.map .data)).log.drop c.log.length)) ∧
      ((run env c (pushes.map .data)).state = .closed →
        Faulty c.log.length (run env c (pushes.map .data)).log) ∧
      (fut = [] → (run env c (pushes.map .data)).state ≠ .closed →
        heard ((run env c (pushes.map .data)).log.drop c.log.length) = (ms.map Prod.snd, [])) := by
  obtain ⟨h', hreads⟩ := hms.reads
  have hgoing : ∀ done m rest h, ms = done ++ m :: rest → Decodes D nct [] done h → True →
      D.Going h m.1 := by
    rintro done m rest h rfl hr -
    exact hms.going hr
  exact Sink.packed_right hg hm hz (W := fun _ => True) hsize hgoing hcap hidle hinf hs hreads hlegal
    hmsgs hwire hsmall hroute fun _ _ _ _ _ => trivial

-- In one frame, in small frames, and in a large one.
def packedMessages : List (Bytes × Bytes) :=
  [[0x41, 0x42], List.replicate 20 0x43, List.replicate 600 0x44].map fun text =>
    (storedMessage text, text)

def packedFrames : List WireFrame :=
  [clientFrame true true .text (storedMessage [0x41, 0x42]) (by decide),
    clientFrame false true .binary ((storedMessage (List.replicate 20 0x43)).take 3) (by decide),
    clientFrame true false .cont ((storedMessage (List.replicate 20 0x43)).drop 3) (by decide),
    clientFrame true true .binary (storedMessage (List.replicate 600 0x44)) (by decide +kernel)]

theorem inflate_lossless_stored :
    (run packedServer packedOpen ((pieces (wire packedFrames)).map .data)).state ≠ .closed ∧
      heard ((run packedServer packedOpen ((pieces (wire packedFrames)).map .data)).log.drop
        packedOpen.log.length) = (packedMessages.map Prod.snd, []) := by
  obtain ⟨hidle, hinf, hms, hsize, hlegal, hmsgs, hwire, hsmall, hroute, hopen⟩ :
      Idle packedOpen ∧ packedOpen.inflater = some ((.start, []), false) ∧
      SyncFlushed stored false [] packedMessages ∧
      (∀ m ∈ packedMessages, min packedServer.recvCap m.1.length + 4 < 4294967296) ∧
      Legal WireFrame.opensCompressed packedServer.isClient false packedFrames ∧
      messages [] packedFrames = packedMessages.map Prod.fst ∧
      (pieces (wire packedFrames)).flatten ++ [] = wire packedFrames ∧
      (∀ d ∈ pieces (wire packedFrames), d.length ≤ packedServer.recvCap / 2) ∧
      (∀ e ∈ (run packedServer packedOpen ((pieces (wire packedFrames)).map .data)).log.drop
        packedOpen.log.length, e.loses packedServer.recvCap = false) ∧
      (run packedServer packedOpen ((pieces (wire packedFrames)).map .data)).state ≠ .closed := by
    rw [packedOpen_eq]
    decide +kernel
  exact ⟨hopen, (inflate_lossless packedServer packedServer_gentle rfl (by decide) stored
    (StepsAt .start Block.step) zlibStored_inflates packedOpen hidle (.start, []) false hinf
    ⟨rfl, le_rfl, rfl⟩ packedMessages hms hsize packedFrames hlegal hmsgs (pieces (wire packedFrames)) []
    hwire hsmall hroute).2.2 rfl hopen⟩

-- A message in three frames that fill frag_buf to the last byte: its text is heard, but no fin.
def fullText : Bytes := List.replicate 1018 0x41

def fullFrames : List WireFrame :=
  [clientFrame false true .binary ((storedMessage fullText).take 400) (by decide +kernel),
    clientFrame false false .cont (((storedMessage fullText).drop 400).take 400) (by decide +kernel),
    clientFrame true false .cont ((storedMessage fullText).drop 800) (by decide +kernel)]

theorem full_buffer_without_fin :
    Idle packedOpen ∧ packedOpen.inflater = some ((.start, []), false) ∧
      SyncFlushed stored false [] [(storedMessage fullText, fullText)] ∧
      Legal WireFrame.opensCompressed packedServer.isClient false fullFrames ∧
      messages [] fullFrames = [storedMessage fullText] ∧
      (∀ d ∈ fullFrames.map WireFrame.bytes, d.length ≤ packedServer.recvCap / 2) ∧
      (run packedServer packedOpen ((fullFrames.map WireFrame.bytes).map .data)).state = .opened ∧
      heard ((run packedServer packedOpen ((fullFrames.map WireFrame.bytes).map .data)).log.drop
        packedOpen.log.length) = ([], fullText) := by
  rw [packedOpen_eq]
  decide +kernel

end Conn

end Sevent.Ws
