import Sevent.Ws.Packed

-- Messages that come in one frame each, as this library sends them: on_message is given one after
-- the other, whatever pieces the stream cuts them into. Such a message never waits in frag_buf, so
-- nothing overtakes it.
namespace Sevent.Ws

variable {σ δ : Type}

open Conn

-- A message in one frame, or a PING or PONG. `packed` = messages are compressed.
def Lone (packed isClient : Bool) (f : WireFrame) : Prop :=
  f.key.isSome = !isClient ∧ f.fin = true ∧
    if f.control then f.rsv1 = false ∧ f.payload.length ≤ 125
    else (f.opcode = Opcode.text ∨ f.opcode = Opcode.binary) ∧ f.rsv1 = packed ∧
      (packed = false → f.opcode = Opcode.text → utf8Validate f.payload = true)

-- Where the payloads of such messages go.
structure Inbox (env : Env σ δ) where
  packed : Bool
  since : Nat
  all : List (Bytes × Bytes)
  Holds : Conn σ δ → List (Bytes × Bytes) → Bytes → Prop
  keep : ∀ {c c' : Conn σ δ} {done part}, Unheard c c' → c'.inflater = c.inflater →
    Holds c done part → Holds c' done part
  ready : packed = true → ∀ {c : Conn σ δ} {done part}, Holds c done part → c.deflate.isSome = true
  feed : packed = false → ∀ {c : Conn σ δ} {done part}, c.destroyed = false →
    Holds c done part → ∀ site data isBin total,
    Holds (message env site data isBin false total c) done (part ++ data)
  finish : packed = false → ∀ {c : Conn σ δ} {done part m rest}, c.destroyed = false →
    Holds c done part → all = done ++ m :: rest → ∀ site data isBin total, m.1 = part ++ data →
    Holds (message env site data isBin true total c) (done ++ [m]) []
  chunk : packed = true → ∀ {c : Conn σ δ} {done part m rest}, c.destroyed = false →
    Holds c done part → all = done ++ m :: rest → ∀ data isBin, part ++ data <+: m.1 →
    data.length ≤ env.recvCap →
    Event.alloc false ∉ (decompressStreamChunk env data isBin c).2.log.drop since →
    (decompressStreamChunk env data isBin c).1 = 0 ∧
      Holds (decompressStreamChunk env data isBin c).2 done (part ++ data)
  flush : packed = true → ∀ {c : Conn σ δ} {done m rest}, c.destroyed = false →
    c.msg.finSent = false → Holds c done m.1 → all = done ++ m :: rest → ∀ isBin,
    Event.alloc false ∉ (decompressStreamEnd env isBin c).2.log.drop since →
    Holds (decompressStreamEnd env isBin c).2 (done ++ [m]) []
  oneshot : packed = true → ∀ {c : Conn σ δ} {done m rest}, c.destroyed = false →
    Holds c done [] → all = done ++ m :: rest → ∀ isBin, m.1.length ≤ env.recvCap →
    Event.alloc false ∉ (decompressOneshot env m.1 isBin c).2.log.drop since →
    (decompressOneshot env m.1 isBin c).1 = 0 ∧
      Holds (decompressOneshot env m.1 isBin c).2 (done ++ [m]) []

namespace Inbox

variable {env : Env σ δ} (I : Inbox env)

-- ---- where a message stands ----

-- What has been taken in are the first messages, and a part of the next one.
def Right (c : Conn σ δ) : Prop :=
  ∃ done part rest, I.Holds c done part ∧ I.all = done ++ rest ∧
    (part = [] ∨ ∃ m more, rest = m :: more ∧ part <+: m.1)

-- The connection is over by a fault, and what has been delivered is right.
def Sound (c : Conn σ δ) : Prop := I.Right c ∧ Faulty I.since c.log

-- No output buffer has failed to be allocated.
def Granted (log : List Event) : Prop := I.packed = true → Event.alloc false ∉ log.drop I.since

-- Between two frames, but for the bytes of the buffer.
structure Waits (c : Conn σ δ) (fs : List WireFrame) (done : List (Bytes × Bytes)) : Prop where
  alive : c.destroyed = false
  just : Justified I.since c
  mode : c.msg.mode = .none
  compressed : c.msg.compressed = false
  frag : c.frag = []
  lone : ∀ f ∈ fs, Lone I.packed env.isClient f
  holds : I.Holds c done []
  due : ∃ rest, I.all = done ++ rest ∧ rest.map Prod.fst = messages [] fs

-- In a streamed frame: `r` of its payload is to come.
structure Inside (c : Conn σ δ) (r : Bytes) (fs : List WireFrame) (done : List (Bytes × Bytes))
    (part : Bytes) : Prop where
  alive : c.destroyed = false
  just : Justified I.since c
  mode : c.msg.mode = .stream
  compressed : c.msg.compressed = I.packed
  finSent : c.msg.finSent = false
  frag : c.frag = []
  fin : c.streamFin = true
  lone : ∀ f ∈ fs, Lone I.packed env.isClient f
  holds : I.Holds c done part
  due : ∃ m rest, I.all = done ++ m :: rest ∧ m.1 = part ++ r ∧ rest.map Prod.fst = messages [] fs

variable {I}

theorem same {c c' : Conn σ δ} {done part} (hh : I.Holds c done part)
    (hlog : c'.log = c.log := by rfl) (hdf : c'.deflate = c.deflate := by rfl) :
    I.Holds c' done part :=
  I.keep (Silent.of_log hlog).unheard (by rw [inflater, inflater, hdf]) hh

theorem Granted.mono {log log' : List Event} (hp : log <+: log') (h : I.Granted log') :
    I.Granted log := by
  obtain ⟨more, rfl⟩ := hp
  intro hs hmem
  refine h hs ?_
  rw [List.drop_append]
  exact List.mem_append_left _ hmem

theorem Waits.right {c : Conn σ δ} {fs done} (h : I.Waits c fs done) : I.Right c := by
  obtain ⟨rest, hall, -⟩ := h.due
  exact ⟨done, [], rest, h.holds, hall, .inl rfl⟩

theorem Inside.right {c : Conn σ δ} {r fs done part} (h : I.Inside c r fs done part) : I.Right c := by
  obtain ⟨m, rest, hall, hm, -⟩ := h.due
  exact ⟨done, part, m :: rest, h.holds, hall, .inr ⟨m, rest, rfl, hm ▸ List.prefix_append _ _⟩⟩

theorem Right.aside {c c' : Conn σ δ} (h : I.Right c) (ha : Aside c c') : I.Right c' := by
  obtain ⟨done, part, rest, hh, hall, hpart⟩ := h
  exact ⟨done, part, rest, I.keep ha.silent.unheard ha.rx.inflate hh, hall, hpart⟩

theorem Sound.aside {c c' : Conn σ δ} (h : I.Sound c) (ha : Aside c c') : I.Sound c' :=
  ⟨h.1.aside ha, h.2.mono ha.log⟩

theorem Waits.aside {c c' : Conn σ δ} {fs done} (h : I.Waits c fs done) (ha : Aside c c')
    (hc : Calm c c') : I.Waits c' fs done := by
  have hmsg := ha.rx.msg
  exact ⟨ha.destroyed, hc.keeps _ h.just, hmsg ▸ h.mode, hmsg ▸ h.compressed, ha.rx.frag ▸ h.frag,
    h.lone, I.keep ha.silent.unheard ha.rx.inflate h.holds, h.due⟩

theorem Waits.recv {c : Conn σ δ} {fs done} (h : I.Waits c fs done) (b : Bytes) :
    I.Waits { c with recv := b } fs done :=
  ⟨h.alive, ⟨h.just.le, h.just.state, h.just.stream, h.just.closed⟩, h.mode, h.compressed, h.frag,
    h.lone, same h.holds, h.due⟩

theorem Waits.noted {c : Conn σ δ} {fs done} (h : I.Waits c fs done) (e : Event)
    (he : e.delivers = false) : I.Waits (c.emit e) fs done :=
  ⟨h.alive, (emit_calm h.alive e).keeps _ h.just, h.mode, h.compressed, h.frag, h.lone,
    I.keep ⟨[e], rfl, by simpa using he⟩ rfl h.holds, h.due⟩

-- PING and PONG are no part of a message.
theorem Waits.skip {c : Conn σ δ} {f : WireFrame} {fs done} (h : I.Waits c (f :: fs) done)
    (hc : f.control = true) : I.Waits c fs done := by
  obtain ⟨rest, hall, hmap⟩ := h.due
  rw [messages, if_pos hc] at hmap
  exact ⟨h.alive, h.just, h.mode, h.compressed, h.frag,
    fun g hg => h.lone g (List.mem_cons_of_mem _ hg), h.holds, ⟨rest, hall, hmap⟩⟩

theorem Waits.owed {c : Conn σ δ} {f : WireFrame} {fs done} (h : I.Waits c (f :: fs) done)
    (hc : f.control = false) :
    ∃ m rest, I.all = done ++ m :: rest ∧ m.1 = f.payload ∧ rest.map Prod.fst = messages [] fs := by
  obtain ⟨rest, hall, hmap⟩ := h.due
  have hfin := (h.lone f (List.mem_cons_self ..)).2.1
  rw [messages, if_neg (by simp [hc]), if_pos hfin, List.nil_append] at hmap
  obtain ⟨m, rest, rfl, hm, hrest⟩ := List.map_eq_cons_iff.mp hmap
  exact ⟨m, rest, hall, hm, hrest⟩

-- The message is over.
theorem Waits.over {c c' : Conn σ δ} {fs done m rest} (hd : c'.destroyed = false)
    (hj : Justified I.since c') (hcl : Sink.Cleared c c')
    (hlone : ∀ f ∈ fs, Lone I.packed env.isClient f) (hholds : I.Holds c' (done ++ [m]) [])
    (hall : I.all = done ++ m :: rest) (hrest : rest.map Prod.fst = messages [] fs) :
    I.Waits c' fs (done ++ [m]) :=
  ⟨hd, hj, hcl.mode, hcl.compressed, hcl.frag, hlone, hholds, ⟨rest, by rw [hall]; simp, hrest⟩⟩

section

variable (hg : env.Gentle) (hm : env.onMessage.isSome = true)

include hg hm

-- ---- frames that are in the buffer as a whole ----

-- A message in one frame, not compressed.
theorem single_waits {c : Conn σ δ} {f : WireFrame} {fs done} (h : I.Waits c (f :: fs) done)
    (hc : f.control = false) (hs : I.packed = false) :
    (handleTextBinary env f.header f.payload c).1 = 0 ∧
      SameFrame c (handleTextBinary env f.header f.payload c).2 ∧
      ∃ done', I.Waits (handleTextBinary env f.header f.payload c).2 fs done' := by
  obtain ⟨m, rest, hall, hm₁, hrest⟩ := h.owed hc
  obtain ⟨-, hfin, hlone⟩ := h.lone f (List.mem_cons_self ..)
  rw [if_neg (by simp [hc])] at hlone
  have htext : ¬ (f.opcode = Opcode.text ∧ (!utf8Validate f.payload) = true) := by
    rintro ⟨hop, hbad⟩
    simp [hlone.2.2 hs hop] at hbad
  have h₀ := h.noted (.dataFrame f.header.opcode f.header.payloadLen f.header.fin c.msg.compressed) rfl
  have hframe₀ : SameFrame c (c.emit (.dataFrame f.header.opcode f.header.payloadLen f.header.fin
    c.msg.compressed)) := .of_fields rfl
  unfold handleTextBinary
  rw [if_neg (by simp [h.mode])]
  dsimp only
  rw [if_pos (by simpa using hfin)]
  generalize c.emit (.dataFrame f.header.opcode f.header.payloadLen f.header.fin c.msg.compressed) = c₀ at *
  have hcalm := message_calm hg .frame f.payload (f.header.opcode == Opcode.binary) true
    f.header.payloadLen h₀.alive
  have hsame := message_sameBuf hg hm .frame f.payload (f.header.opcode == Opcode.binary) true
    f.header.payloadLen h₀.alive
  have hholds := I.finish hs h₀.alive h₀.holds hall .frame f.payload (f.header.opcode == Opcode.binary)
    f.header.payloadLen (by rw [hm₁, List.nil_append])
  unfold handleSingle
  rw [if_neg (by simpa using htext), if_pos hm]
  generalize message env .frame f.payload (f.header.opcode == Opcode.binary) true f.header.payloadLen c₀ = c₁
    at *
  have hcl : Sink.Cleared c₀ c₁ :=
    ⟨hsame.toSameFrame, hsame.msg ▸ h₀.mode, hsame.msg ▸ h₀.compressed, hsame.frag.trans h₀.frag⟩
  exact ⟨by simp [hcalm.destroyed], hframe₀.trans hcl.toSameFrame, done ++ [m],
    .over hcalm.destroyed (hcalm.keeps _ h₀.just) hcl (fun g hg => h.lone g (List.mem_cons_of_mem _ hg))
      hholds hall hrest⟩

-- A compressed message in one frame.
theorem oneshot_waits {c : Conn σ δ} {f : WireFrame} {fs x done} (h : I.Waits c (f :: fs) done)
    (hc : f.control = false) (hs : I.packed = true) (hx : c.recv = f.head ++ f.payload ++ x)
    (hlen : f.payload.length ≤ env.recvCap)
    (hclean : I.Granted (oneshotFrame env f.header f.head.length f.payload c).2.log) :
    ∃ c', oneshotFrame env f.header f.head.length f.payload c = (.goOn, c') ∧
      c'.recv = x ∧ c'.streamRemaining = c.streamRemaining ∧ ∃ done', I.Waits c' fs done' := by
  obtain ⟨m, rest, hall, hm₁, hrest⟩ := h.owed hc
  have h₀ := h.noted (.dataFrame f.header.opcode f.header.payloadLen f.header.fin true) rfl
  have hsame₀ : SameBuf c (c.emit (.dataFrame f.header.opcode f.header.payloadLen f.header.fin
    true)) := .of_fields rfl
  unfold oneshotFrame at hclean ⊢
  rw [if_neg (by simp [h.mode])] at hclean ⊢
  dsimp only at hclean ⊢
  generalize c.emit (.dataFrame f.header.opcode f.header.payloadLen f.header.fin true) = c₀ at *
  have hcalm := decompressOneshot_calm hg hm f.payload (f.header.opcode == Opcode.binary) h₀.alive
  have hsame := hsame₀.trans
    (decompressOneshot_sameBuf hg hm f.payload (f.header.opcode == Opcode.binary) h₀.alive)
  have hone := I.oneshot hs h₀.alive h₀.holds hall (f.header.opcode == Opcode.binary) (hm₁ ▸ hlen)
  rw [hm₁] at hone
  generalize decompressOneshot env f.payload (f.header.opcode == Opcode.binary) c₀ = r at *
  have hlog : I.Granted r.2.log := by
    revert hclean
    split_ifs <;> exact id
  obtain ⟨h0, hholds⟩ := hone (hlog hs)
  rw [if_neg (by simp [h0]), if_neg (by simp [hcalm.destroyed]), consumeFrame_wire (hsame.recv.trans hx)]
  have hcl : Sink.Cleared c r.2 :=
    ⟨hsame.toSameFrame, hsame.msg ▸ h.mode, hsame.msg ▸ h.compressed, hsame.frag.trans h.frag⟩
  exact ⟨_, rfl, rfl, hsame.remaining, done ++ [m],
    (Waits.over hcalm.destroyed (hcalm.keeps _ h₀.just) hcl
      (fun g hg => h.lone g (List.mem_cons_of_mem _ hg)) hholds hall hrest).recv x⟩

omit hg hm in
-- A frame that has been dealt with: the loop goes on behind it.
theorem plain_goOn {c c₁ : Conn σ δ} {f : WireFrame} {fs x} {r : Int × Conn σ δ}
    (hctl : Opcode.isControl f.opcode = true → f.payload.length ≤ 125 ∧ f.fin = true)
    (hclose : f.opcode ≠ Opcode.close) (hd : dispatch env f.header f.payload c₁ = some r)
    (hx : c.recv = f.head ++ f.payload ++ x) (h0 : r.1 = 0) (hframe : SameFrame c r.2)
    (hwaits : ∃ done, I.Waits r.2 fs done) :
    ∃ c', plainFrame env f.header f.head.length f.payload c₁ = (.goOn, c') ∧
      c'.recv = x ∧ c'.streamRemaining = c.streamRemaining ∧ ∃ done, I.Waits c' fs done := by
  obtain ⟨done, hwaits⟩ := hwaits
  refine ⟨{ r.2 with recv := x }, ?_, rfl, hframe.remaining, done, hwaits.recv x⟩
  rw [Sink.plainFrame_dispatched f.head.length hctl hclose hd, if_neg (by omega), if_neg (by omega),
    consumeFrame_wire (hframe.recv.trans hx)]

omit hm in
theorem control_waits {c : Conn σ δ} {f : WireFrame} {fs x done} (h : I.Waits c (f :: fs) done)
    (hc : f.control = true) (hopen : c.state ≠ .closed) (hx : c.recv = f.head ++ f.payload ++ x) :
    (∃ c', plainFrame env f.header f.head.length f.payload c = (.goOn, c') ∧
      c'.recv = x ∧ c'.streamRemaining = c.streamRemaining ∧ ∃ done', I.Waits c' fs done') ∨
    ∃ c', plainFrame env f.header f.head.length f.payload c = (.ret Err.wsWrite, c') ∧ I.Sound c' := by
  obtain ⟨-, hfin, hlone⟩ := h.lone f (List.mem_cons_self ..)
  rw [if_pos hc] at hlone
  have hlen := hlone.2
  have hskip := h.skip hc
  simp only [WireFrame.control, Bool.or_eq_true, beq_iff_eq] at hc
  rcases hc with hop | hop
  · have hd : dispatch env f.header f.payload c = some (handlePing env f.payload c) := by
      simp [dispatch, hop, Opcode.ping, Opcode.text, Opcode.binary, Opcode.cont]
    have hclose : f.opcode ≠ Opcode.close := by simp [hop, Opcode.ping, Opcode.close]
    have ha := handlePing_aside hg f.payload h.alive
    have hcalm := handlePing_calm hg f.payload h.alive
    by_cases h0 : (handlePing env f.payload c).1 = 0
    · exact .inl (plain_goOn (fun _ => ⟨hlen, hfin⟩) hclose hd hx h0 ha.rx.sameBuf.toSameFrame
        ⟨done, hskip.aside ha hcalm⟩)
    · have hrc : (sendFrame env (notify env) Opcode.pong (.bytes f.payload) c).1 ≠ 0 := by
        intro hzero
        simp [handlePing, hzero] at h0
      have hret : (handlePing env f.payload c).1 = Err.wsWrite := by simp [handlePing, hrc]
      have hfault : Faulty I.since (handlePing env f.payload c).2.log :=
        pong_fault (fun n _ hd _ => notify_aside hg n hd) h.alive h.just hopen hlen hrc
      refine .inr ⟨(handlePing env f.payload c).2, ?_, (hskip.aside ha hcalm).right, hfault⟩
      rw [Sink.plainFrame_dispatched f.head.length (fun _ => ⟨hlen, hfin⟩) hclose hd, hret,
        if_neg (by decide), if_pos (by decide)]
  · have hd : dispatch env f.header f.payload c = some (handlePong env f.payload c) := by
      simp [dispatch, hop, Opcode.ping, Opcode.pong, Opcode.text, Opcode.binary, Opcode.cont]
    have ha := handlePong_aside hg f.payload h.alive
    have hdes : (callback env env.onPong (.onPong f.payload) c).destroyed = false := ha.destroyed
    exact .inl (plain_goOn (fun _ => ⟨hlen, hfin⟩) (by simp [hop, Opcode.pong, Opcode.close]) hd hx
      (by simp [handlePong, hdes]) ha.rx.sameBuf.toSameFrame
      ⟨done, hskip.aside ha (handlePong_calm hg f.payload h.alive)⟩)

theorem whole_waits {c : Conn σ δ} {f : WireFrame} {fs x done} (h : I.Waits c (f :: fs) done)
    (hopen : c.state ≠ .closed) (hx : c.recv = f.bytes ++ x) (hroom : c.recv.length ≤ env.recvCap)
    (hclean : I.Granted (wholeFrame env f.header f.head.length c).2.log) :
    (∃ c', wholeFrame env f.header f.head.length c = (.goOn, c') ∧
      c'.recv = x ∧ c'.streamRemaining = c.streamRemaining ∧ ∃ done', I.Waits c' fs done') ∨
    ∃ c', wholeFrame env f.header f.head.length c = (.ret Err.wsWrite, c') ∧ I.Sound c' := by
  obtain ⟨hkey, hfin, hlone⟩ := h.lone f (List.mem_cons_self ..)
  have hlen : f.payload.length ≤ env.recvCap := by
    rw [hx, List.length_append, f.bytes_length] at hroom
    omega
  have h₁ := h.recv (f.head ++ f.payload ++ x)
  unfold wholeFrame at hclean ⊢
  rw [framePayload_wire hx, unmaskFrame_wire hx] at hclean ⊢
  rw [if_neg (by simp [hkey])] at hclean ⊢
  dsimp only at hclean ⊢
  rw [if_neg (by simp)] at hclean ⊢
  by_cases hc : f.control = true
  · rw [if_pos hc] at hlone
    simp only [WireFrame.header_rsv1, hlone.1, Bool.false_eq_true, false_and, if_false, noteCompressed]
    exact control_waits hg h₁ hc hopen rfl
  rw [if_neg hc] at hlone
  rw [Bool.not_eq_true] at hc
  obtain ⟨hdata, hrsv, -⟩ := hlone
  have hctl : Opcode.isControl f.opcode = false := by
    rcases hdata with hop | hop <;> rw [hop] <;> decide
  cases hs : I.packed with
  | true =>
      rw [hs] at hrsv
      have hcont : f.opcode ≠ Opcode.cont := by
        rcases hdata with hop | hop <;> rw [hop] <;> decide
      have hready := I.ready hs h.holds
      rw [if_neg (by simp [hctl]), if_neg (by simp [Option.isSome_iff_ne_none.mp hready]),
        if_neg (by simp [hcont]), if_pos ⟨hrsv, hfin⟩] at hclean ⊢
      exact .inl (oneshot_waits hg hm h₁ hc hs rfl hlen hclean)
  | false =>
      rw [hs] at hrsv
      simp only [WireFrame.header_rsv1, hrsv, Bool.false_eq_true, false_and, if_false, noteCompressed]
      obtain ⟨h0, hframe, hwaits⟩ := single_waits hg hm h₁ hc hs
      have hd : dispatch env f.header f.payload { c with recv := f.head ++ f.payload ++ x } =
          some (handleTextBinary env f.header f.payload
            { c with recv := f.head ++ f.payload ++ x }) := if_pos hdata
      refine .inl (plain_goOn (c := { c with recv := f.head ++ f.payload ++ x }) (fun h => ?_)
        (fun hop => ?_) hd rfl h0 hframe hwaits)
      · simp [hctl] at h
      · rcases hdata with hop' | hop' <;> rw [hop'] at hop <;> cases hop

-- ---- frames on the streaming route ----

omit hg hm in
theorem begin_waits {c : Conn σ δ} {f : WireFrame} {fs x done} (h : I.Waits c (f :: fs) done)
    (hx : c.recv = f.head ++ x) (hlen : 125 < f.payload.length) :
    ∃ c', beginStream env f.header f.head.length c = (none, streamConsume env c') ∧
      c'.destroyed = false ∧ I.Inside c' f.payload fs done [] ∧ c'.recv = x ∧
      c'.streamRemaining = f.payload.length ∧ ∀ r, c'.veil r =
        match f.key with
        | none => r
        | some key => applyMask key r := by
  obtain ⟨hkey, hfin, hlone⟩ := h.lone f (List.mem_cons_self ..)
  have hc : f.control = false := by
    by_contra hc
    rw [Bool.not_eq_false] at hc
    rw [if_pos hc] at hlone
    omega
  rw [if_neg (by simp [hc])] at hlone
  obtain ⟨hdata, hrsv, -⟩ := hlone
  obtain ⟨m, rest, hall, hm₁, hrest⟩ := h.owed hc
  have hdeflate : ¬ (f.header.rsv1 = true ∧ c.deflate.isNone = true) := by
    rintro ⟨hset, hnone⟩
    have hready := I.ready (hrsv.symm.trans hset) h.holds
    simp [Option.isNone_iff_eq_none.mp hnone] at hready
  have hcont : f.opcode ≠ Opcode.cont := by
    rcases hdata with hop | hop <;> rw [hop] <;> decide
  have hfirst : ¬ (c.msg.mode = .none ∧ f.header.opcode ≠ Opcode.text ∧
      f.header.opcode ≠ Opcode.binary) := fun hn => hdata.elim hn.2.1 hn.2.2
  unfold beginStream
  rw [if_neg (by simp), if_neg hdeflate, if_neg (fun hn => hcont hn.2), if_neg (by simp [hkey]),
    if_neg (fun hn => hn.1 h.mode), if_neg hfirst]
  have h₁ := (h.noted (.dataFrame f.header.opcode f.header.payloadLen f.header.fin
    (c.msg.compressed || f.header.rsv1)) rfl).noted (.streamFrame c.msg.mode c.frag.length) rfl
  simp only [joinStream, emit, h.mode] at h₁ ⊢
  refine ⟨_, rfl, h.alive, ?_, ?_, rfl, fun r => ?_⟩
  · have hj := h₁.just
    exact ⟨h.alive, ⟨hj.le, hj.state, hj.stream, hj.closed⟩, rfl, by simp [armStream, h.compressed, hrsv],
      rfl, h.frag, hfin, fun g hg => h.lone g (List.mem_cons_of_mem _ hg), same h₁.holds,
      ⟨m, rest, hall, by simpa using hm₁, hrest⟩⟩
  · simp [armStream, hx]
  · unfold veil armStream
    cases hk : f.key with
    | none => simp [hk]
    | some key => simp [hk, WireFrame.header, applyMask]

-- One chunk of a streamed frame: a part of the message, or its end.
theorem turn_inside {c : Conn σ δ} {a b x fs done part m rest} (hd : c.destroyed = false)
    (h : I.Inside c (a ++ b) fs done part) (hall : I.all = done ++ m :: rest)
    (hm₁ : m.1 = part ++ (a ++ b)) (ha : a ≠ []) (hrecv : c.recv = c.veil a ++ x)
    (hend : b = [] ∨ x = []) (hrem : c.streamRemaining = a.length + b.length)
    (hroom : c.recv.length ≤ env.recvCap)
    (hclean : I.Granted (streamChunks env c.recv.length c).2.log) :
    ∃ c', streamChunks env c.recv.length c = (true, c'.advance a.length) ∧ Calm c c' ∧
      SameFrame { c with recv := a ++ x } c' ∧ c'.msg.mode = .stream ∧ c'.frag = [] ∧
      c'.msg.compressed = I.packed ∧
      (c'.msg.finSent = false ∧ (b = [] → I.packed = true) ∧ I.Holds c' done (part ++ a) ∨
        b = [] ∧ I.packed = false ∧ c'.msg.finSent = true ∧ I.Holds c' (done ++ [m]) []) := by
  obtain ⟨fuel, heq⟩ := streamChunks_turn hd ha hrecv hend hrem hroom hm
  have hstop : ∀ c' : Conn σ δ, SameFrame { c with recv := a ++ x } c' →
      streamChunks env fuel (c'.advance a.length) = (true, c'.advance a.length) := by
    intro c' hframe
    refine streamChunks_stop fuel _ ?_
    rcases hend with hb | hx
    · exact .inr (by simp [advance, hframe.remaining, hrem, hb])
    · exact .inl (by simp [advance, hframe.recv, hx])
  have hlen : a.length ≤ env.recvCap := by
    rw [hrecv, List.length_append, c.veil_length] at hroom
    omega
  have h₁ : Calm c { c with recv := a ++ x } := .same hd rfl rfl rfl rfl
  rw [heq] at hclean ⊢
  cases hs : I.packed with
  | true =>
      rw [if_pos (h.compressed.trans hs)] at hclean ⊢
      dsimp only at hclean ⊢
      have hcalm := decompressStreamChunk_calm hg hm a c.isBin h₁.destroyed
      have hsame := decompressStreamChunk_sameBuf hg hm a c.isBin h₁.destroyed
      have hchunk := I.chunk (c := { c with recv := a ++ x }) hs hd (same h.holds) hall a c.isBin
        (by rw [hm₁, ← List.append_assoc]; exact List.prefix_append _ _) hlen
      generalize decompressStreamChunk env a c.isBin { c with recv := a ++ x } = r at *
      have hlog : I.Granted r.2.log := by
        refine hclean.mono ?_
        split
        · exact List.prefix_rfl
        · exact (streamChunks_calm hg hm fuel (c := r.2.advance a.length) hcalm.destroyed).log
      obtain ⟨h0, hholds⟩ := hchunk (hlog hs)
      rw [if_neg (by simp [h0]), hstop _ hsame.toSameFrame]
      exact ⟨r.2, rfl, h₁.trans hcalm, hsame.toSameFrame, hsame.msg ▸ h.mode, hsame.frag.trans h.frag,
        hsame.msg ▸ h.compressed.trans hs, .inl ⟨hsame.msg ▸ h.finSent, fun _ => rfl, hholds⟩⟩
  | false =>
      rw [if_neg (by simp [h.compressed, hs])]
      dsimp only
      have hcalm := handed_calm hg a (decide (b = []) && c.streamFin) h₁.destroyed
      rw [if_neg (by simp [hcalm.destroyed])]
      have hholds₁ : I.Holds { c with recv := a ++ x } done part := same h.holds
      by_cases hb : b = []
      · subst hb
        rw [List.append_nil] at hm₁
        have hlast : (decide (([] : Bytes) = []) && c.streamFin) = true := by simp [h.fin]
        rw [hlast] at hcalm ⊢
        have hsame := message_sameBuf hg hm .streamConsume a c.isBin true c.msg.total h₁.destroyed
        have hholds := I.finish hs h₁.destroyed hholds₁ hall .streamConsume a c.isBin c.msg.total hm₁
        have he : handed env a true { c with recv := a ++ x } =
            { message env .streamConsume a c.isBin true c.msg.total { c with recv := a ++ x } with
              msg := { (message env .streamConsume a c.isBin true c.msg.total
                { c with recv := a ++ x }).msg with finSent := true } } := rfl
        rw [he] at hcalm ⊢
        generalize message env .streamConsume a c.isBin true c.msg.total { c with recv := a ++ x } = c₂
          at *
        have hframe : SameFrame { c with recv := a ++ x }
            { c₂ with msg := { c₂.msg with finSent := true } } :=
          hsame.toSameFrame.trans (.of_fields rfl)
        rw [hstop _ hframe]
        exact ⟨_, rfl, h₁.trans hcalm, hframe, hsame.msg ▸ h.mode, hsame.frag.trans h.frag,
          hsame.msg ▸ h.compressed.trans hs,
          .inr ⟨rfl, rfl, rfl, same hholds⟩⟩
      · have hmore : (decide (b = []) && c.streamFin) = false := by simp [hb]
        rw [hmore] at hcalm ⊢
        have hsame := message_sameBuf hg hm .streamConsume a c.isBin false 0 h₁.destroyed
        have hholds := I.feed hs h₁.destroyed hholds₁ .streamConsume a c.isBin 0
        have he : handed env a false { c with recv := a ++ x } =
            message env .streamConsume a c.isBin false 0 { c with recv := a ++ x } := rfl
        rw [he] at hcalm ⊢
        rw [hstop _ hsame.toSameFrame]
        exact ⟨_, rfl, h₁.trans hcalm, hsame.toSameFrame,
          (congrArg MsgState.mode hsame.msg).trans h.mode, hsame.frag.trans h.frag,
          (congrArg MsgState.compressed hsame.msg).trans (h.compressed.trans hs),
          .inl ⟨(congrArg MsgState.finSent hsame.msg).trans h.finSent, fun h => absurd h hb, hholds⟩⟩

theorem consume_inside {c : Conn σ δ} {a b x fs done part} (hd : c.destroyed = false)
    (h : I.Inside c (a ++ b) fs done part) (ha : a ≠ []) (hrecv : c.recv = c.veil a ++ x)
    (hend : b = [] ∨ x = []) (hrem : c.streamRemaining = a.length + b.length)
    (hroom : c.recv.length ≤ env.recvCap) (hclean : I.Granted (streamConsume env c).log) :
    (streamConsume env c).recv = x ∧
      (b = [] → (∃ done', I.Waits (streamConsume env c) fs done') ∧
        (streamConsume env c).streamRemaining = 0) ∧
      (b ≠ [] → I.Inside (streamConsume env c) b fs done (part ++ a) ∧
        Advanced c (streamConsume env c) a.length) := by
  obtain ⟨m, rest, hall, hm₁, hrest⟩ := h.due
  have hchunks := streamChunks_calm hg hm c.recv.length hd
  have hgrows : (streamChunks env c.recv.length c).2.log <+: (streamConsume env c).log := by
    unfold streamConsume
    dsimp only
    split_ifs
    · exact List.prefix_rfl
    · exact (msgEnd_calm hg hm c.isBin hchunks.destroyed).log
    · exact List.prefix_rfl
  obtain ⟨c', heq, hcalm, hframe, hmode, hfrag, hcomp, hturn⟩ :=
    turn_inside hg hm hd h hall hm₁ ha hrecv hend hrem hroom (hclean.mono hgrows)
  have hadv : SameFrame
      { c with recv := x, streamRemaining := b.length, streamMaskOff := c.streamMaskOff + a.length }
      (c'.advance a.length) := by
    refine ⟨?_, ?_, hframe.fin, hframe.mask, hframe.maskKey, ?_⟩
    · simp [advance, hframe.recv]
    · simp [advance, hframe.remaining, hrem]
    · simp [advance, hframe.maskOff]
  have hj : Justified I.since (c'.advance a.length) :=
    have hj := hcalm.keeps _ h.just
    ⟨hj.le, hj.state, hj.stream, hj.closed⟩
  have hd' : (c'.advance a.length).destroyed = false := hcalm.destroyed
  unfold streamConsume at hclean ⊢
  rw [heq] at hclean ⊢
  dsimp only at hclean ⊢
  rw [if_neg (by simp)] at hclean ⊢
  by_cases hb : b = []
  · subst hb
    rw [List.append_nil] at hm₁
    rw [if_pos ⟨hadv.remaining, hadv.fin.trans h.fin⟩] at hclean ⊢
    have hmsgEnd := msgEnd_calm hg hm c.isBin hd'
    have hmode' : ¬ (c'.advance a.length).msg.mode = .none := by
      change ¬ c'.msg.mode = .none
      simp [hmode]
    -- fin has gone out with the last bytes, or goes out behind inflate
    obtain ⟨hcl, hholds⟩ : Sink.Cleared (c'.advance a.length) (msgEnd env c.isBin (c'.advance a.length)) ∧
        I.Holds (msgEnd env c.isBin (c'.advance a.length)) (done ++ [m]) [] := by
      unfold msgEnd at hclean ⊢
      rw [if_neg hmode'] at hclean ⊢
      rcases hturn with ⟨hsent, hpacked, hholds⟩ | ⟨-, hs, hsent, hholds⟩
      · have hs := hpacked rfl
        rw [if_pos (show (c'.advance a.length).msg.compressed = true from hcomp.trans hs)] at hclean ⊢
        have hframe := decompressStreamEnd_sameFrame hg hm c.isBin hd'
        have hflush := I.flush (c := c'.advance a.length) hs hd' hsent (same (hm₁ ▸ hholds)) hall c.isBin
          (hclean hs)
        exact ⟨⟨hframe.trans ⟨rfl, rfl, rfl, rfl, rfl, rfl⟩, rfl, rfl, rfl⟩, same hflush⟩
      · have hplain : (c'.advance a.length).msg.compressed = false := hcomp.trans hs
        have hdone : (c'.advance a.length).msg.finSent = true := hsent
        simp only [hplain, hdone, Bool.false_eq_true, if_false, Bool.not_true, false_and]
        exact ⟨⟨⟨rfl, rfl, rfl, rfl, rfl, rfl⟩, rfl, rfl, rfl⟩, same hholds⟩
    refine ⟨hcl.recv.trans hadv.recv, fun _ => ⟨⟨done ++ [m], ?_⟩, ?_⟩, fun h => absurd rfl h⟩
    · exact .over hmsgEnd.destroyed (hmsgEnd.keeps _ hj) hcl h.lone hholds hall hrest
    · exact hcl.remaining.trans hadv.remaining
  · have hpos : 0 < b.length := List.length_pos_iff.mpr hb
    have hrem' : (c'.advance a.length).streamRemaining = b.length := hadv.remaining
    rw [if_neg (fun hcond => by omega)]
    obtain ⟨hsent, -, hholds⟩ := hturn.resolve_right fun h => hb h.1
    refine ⟨hadv.recv, fun h => absurd h hb, fun _ => ⟨?_, ?_⟩⟩
    · exact ⟨hd', hj, hmode, hcomp, hsent, hfrag, hadv.fin.trans h.fin, h.lone, same hholds,
        ⟨m, rest, hall, by rw [hm₁, List.append_assoc], hrest⟩⟩
    · exact ⟨hrem'.trans (by omega), hadv.mask, hadv.maskKey, hadv.maskOff⟩

-- ---- the reader ----

variable (I) in
def reader : Reader env where
  Clean := I.Granted
  Mid c fs := ∃ done, I.Waits c fs done
  In c r fs := ∃ done part, I.Inside c r fs done part
  Given _ := I.Sound
  Fair := I.Sound
  clean_mono := Granted.mono
  mid_fair := fun ⟨_, h⟩ hc => ⟨h.right, h.just.closed hc⟩
  in_fair := fun ⟨_, _, h⟩ hc => ⟨h.right, h.just.closed hc⟩
  in_mode := fun ⟨_, _, h⟩ => h.mode
  fair_aside := fun h ha => h.aside ha
  given_fatal := fun hd h => h.aside (fatal_ended (fun n _ hd _ => notify_aside hg n hd) _ hd).aside
  mid_data := fun b ⟨done, h⟩ => ⟨done, (h.recv _).noted .frameData rfl⟩
  in_data := by
    rintro c r fs b ⟨done, part, h⟩
    have h₁ : Calm c { c with recv := c.recv ++ b } := .same h.alive rfl rfl rfl rfl
    have hj := (h₁.trans (emit_calm h₁.destroyed .frameData)).keeps _ h.just
    have hholds : I.Holds { c with recv := c.recv ++ b } done part := same h.holds
    exact ⟨done, part, h.alive, hj, h.mode, h.compressed, h.finSent, h.frag, h.fin, h.lone,
      I.keep ⟨[.frameData], rfl, by simp [Event.delivers]⟩ rfl hholds, h.due⟩
  whole := by
    rintro c f fs x - hopen ⟨done, h⟩ hx hroom hclean
    rcases whole_waits hg hm h hopen hx hroom hclean with ⟨c', heq, hrecv, hrem, hwaits⟩ | ⟨c', heq, hsound⟩
    · rw [heq]
      exact .inl ⟨rfl, hrecv, hrem, .inl hwaits⟩
    · rw [heq]
      exact .inr ⟨Err.wsWrite, rfl, by decide, hsound⟩
  begin := by
    rintro c f fs x - - ⟨done, h⟩ hx - hlen -
    obtain ⟨c', heq, hd, hin, hrest⟩ := begin_waits h hx hlen
    exact ⟨c', heq, hd, ⟨done, [], hin⟩, hrest⟩
  consume := by
    rintro c a b x fs hd ⟨done, part, h⟩ ha hrecv hend hrem hroom hclean
    obtain ⟨hx, hdone, hgo⟩ := consume_inside hg hm hd h ha hrecv hend hrem hroom hclean
    exact ⟨hx, hdone, fun hb => ⟨⟨done, part ++ a, (hgo hb).1⟩, (hgo hb).2⟩⟩

-- Pushes of such frames on an idle connection. `fut` has not been pushed yet.
theorem run_right {fs : List WireFrame} {pushes : List Bytes} {fut : Bytes} {c : Conn σ δ}
    (hcap : 1024 ≤ env.recvCap) (hidle : Idle c) (hholds : I.Holds c [] [])
    (hsince : I.since = c.log.length) (hall : I.all.map Prod.fst = messages [] fs)
    (hlone : ∀ f ∈ fs, Lone I.packed env.isClient f) (hwire : pushes.flatten ++ fut = wire fs)
    (hsmall : ∀ d ∈ pushes, d.length ≤ env.recvCap / 2)
    (hclean : I.Granted (run env c (pushes.map .data)).log) :
    I.Right (run env c (pushes.map .data)) ∧
      ((run env c (pushes.map .data)).state = .closed →
        Faulty c.log.length (run env c (pushes.map .data)).log) ∧
      (fut = [] → (run env c (pushes.map .data)).state ≠ .closed →
        I.Holds (run env c (pushes.map .data)) I.all []) := by
  have hwaits : I.Waits c fs [] :=
    ⟨hidle.alive,
      ⟨hsince.le, .inl hidle.state, .inl hidle.stream, fun h => by cases h.symm.trans hidle.state⟩,
      hidle.mode, hidle.compressed, hidle.frag, hlone, hholds, ⟨I.all, rfl, hall⟩⟩
  have hrests : (I.reader hg hm).Rests (pushes.flatten ++ fut) c :=
    .inl ⟨fs, ⟨hidle.alive, ⟨[], hwaits⟩, hidle.remaining, by simp [hidle.recv, hwire],
      by simp [hidle.recv]⟩, .inl hidle.recv⟩
  rw [← hsince]
  rcases Reader.run_ends hg hm hcap pushes hrests (.inl hidle.state) hidle.stream (.inl hsmall) hclean
    with ⟨hc, hright, hf⟩ | hend
  · exact ⟨hright, fun _ => hf, fun _ h => absurd hc h⟩
  · refine ⟨?_, fun hc => (hend.fair hc).2, fun hfut _ => ?_⟩
    · rcases hend with ⟨fs', h, -⟩ | ⟨r, fs', h, -⟩
      · obtain ⟨done, h⟩ := h.mid
        exact h.right
      · obtain ⟨done, part, h⟩ := h.inside
        exact h.right
    · subst hfut
      obtain ⟨⟨done, h⟩, -⟩ := hend.done
      obtain ⟨rest, hall', hmap⟩ := h.due
      have hrest : rest = [] := List.map_eq_nil_iff.mp hmap
      rw [hall', hrest, List.append_nil]
      exact h.holds

-- ---- the two inboxes ----

-- on_message itself.
def plain (n : Nat) (ms : List Bytes) : Inbox env where
  packed := false
  since := n
  all := (Sink.plain hg hm n ms).all
  Holds := (Sink.plain hg hm n ms).Holds
  keep := (Sink.plain hg hm n ms).keep
  ready := fun h => by cases h
  feed := fun _ => (Sink.plain hg hm n ms).feed rfl
  finish := fun _ => (Sink.plain hg hm n ms).finish rfl
  chunk := fun h => by cases h
  flush := fun h => by cases h
  oneshot := fun h => by cases h

section

variable {D : Decoder Byte Byte} {at_ : σ → Bytes → Nat → Prop} (hz : env.zlib.Inflates D at_)

-- on_message behind inflate, for messages that end with a sync flush.
def inflated (n : Nat) (nct : Bool) (ms : List (Bytes × Bytes)) (hms : SyncFlushed D nct [] ms)
    (hcap : env.recvCap + 4 < 4294967296) : Inbox env where
  packed := true
  since := n
  all := ms
  Holds c done part := ∃ rest h h' s, ms = done ++ rest ∧
    Sink.Reached D at_ nct (fun _ => True) c n done rest part h h' s
  keep := by
    rintro c c' done part hs hinf ⟨rest, h, h', s, hall, hr⟩
    exact ⟨rest, h, h', s, hall, hr.keep hs hinf⟩
  ready := by
    rintro - c done part ⟨rest, h, h', s, -, hr⟩
    have hsome : c.inflater.isSome = true := by rw [hr.inflater]; rfl
    rwa [Conn.inflater, Option.isSome_map] at hsome
  feed := fun h => by cases h
  finish := fun h => by cases h
  chunk := by
    rintro - c done part m rest hd ⟨rest', h, h', s, hall', hr⟩ hall data isBin ⟨t, ht⟩ hlen hgrant
    obtain rfl : rest' = m :: rest := List.append_cancel_left (hall'.symm.trans hall)
    have hgo : D.Going h (part ++ (data ++ t)) := by
      rw [← List.append_assoc, ht]
      exact (hall ▸ hms).going hr.before
    obtain ⟨s', c', heq, hs', htold, hinf⟩ := decompressStreamChunk_takes hg hm hz data isBin hd
      hr.inflater hr.state hgo.rest.part (by omega) hr.log hgrant
    rw [heq]
    exact ⟨rfl, m :: rest, h, h', s', hall, hr.told htold trivial hinf hs'⟩
  flush := by
    rintro - c done m rest hd hsent ⟨rest', h, h', s, hall', hr⟩ hall isBin hgrant
    obtain rfl : rest' = m :: rest := List.append_cancel_left (hall'.symm.trans hall)
    obtain ⟨x, htakes, htext, hrest⟩ := hr.behind
    obtain ⟨y, hx, hy⟩ := htakes.rest ((hall ▸ hms).going hr.before)
    obtain ⟨s', c', heq, hs', hfined, hinf⟩ := decompressStreamEnd_takes hg hm hz isBin hd hsent
      hr.inflater hr.state hy hr.log hgrant
    rw [heq]
    rw [List.append_assoc, ← hx] at hs'
    exact ⟨rest, _, h', s', by rw [hall]; simp, hr.fined hfined hx htakes htext hrest hinf hs'⟩
  oneshot := by
    rintro - c done m rest hd ⟨rest', h, h', s, hall', hr⟩ hall isBin hlen hgrant
    obtain rfl : rest' = m :: rest := List.append_cancel_left (hall'.symm.trans hall)
    obtain ⟨x, htakes, htext, hrest⟩ := hr.behind
    have htakes' := htakes
    rw [← List.append_nil h] at htakes'
    obtain ⟨s', c', heq, hs', hfined, hinf⟩ := decompressOneshot_takes hg hm hz m.1 isBin hd
      hr.inflater hr.state htakes' (by omega) hr.log hgrant
    rw [heq]
    rw [List.append_nil] at hs'
    exact ⟨rfl, rest, _, h', s', by rw [hall]; simp,
      hr.fined hfined (List.nil_append x).symm htakes htext hrest hinf hs'⟩

end

-- ---- what is heard ----

section

variable {c : Conn σ δ} {fs : List WireFrame} {pushes : List Bytes} {fut : Bytes}

include hg hm

theorem plain_heard (hcap : 1024 ≤ env.recvCap) (hidle : Idle c)
    (hlone : ∀ f ∈ fs, Lone false env.isClient f) (hwire : pushes.flatten ++ fut = wire fs)
    (hsmall : ∀ d ∈ pushes, d.length ≤ env.recvCap / 2) :
    Delivers (messages [] fs) (heard ((run env c (pushes.map .data)).log.drop c.log.length)) ∧
      ((run env c (pushes.map .data)).state = .closed →
        Faulty c.log.length (run env c (pushes.map .data)).log) ∧
      (fut = [] → (run env c (pushes.map .data)).state ≠ .closed →
        heard ((run env c (pushes.map .data)).log.drop c.log.length) = (messages [] fs, [])) := by
  have hfst : ((messages [] fs).map fun m => (m, m)).map Prod.fst = messages [] fs := by
    simp [List.map_map, Function.comp_def]
  obtain ⟨hright, hfault, hall⟩ := run_right (I := plain hg hm c.log.length (messages [] fs)) hg hm hcap
    hidle ⟨le_rfl, by simp [heard]⟩ rfl hfst hlone hwire hsmall (fun h => by cases h)
  refine ⟨?_, hfault, fun hfut hc => ?_⟩
  · obtain ⟨done, part, rest, ⟨-, hh⟩, hsplit, hpart⟩ := hright
    rw [hh]
    refine ⟨rest.map Prod.fst, ?_, ?_⟩
    · have hmap := congrArg (List.map Prod.fst) hsplit
      rwa [List.map_append, show (plain hg hm c.log.length (messages [] fs)).all.map Prod.fst =
        messages [] fs from hfst] at hmap
    · rcases hpart with hnil | ⟨m, more, rfl, hp⟩
      · exact .inl hnil
      · exact .inr ⟨m.1, more.map Prod.fst, rfl, hp⟩
  · obtain ⟨-, hh⟩ := hall hfut hc
    rw [hh]
    exact congrArg (·, []) hfst

theorem inflated_heard {D : Decoder Byte Byte} {at_ : σ → Bytes → Nat → Prop}
    (hz : env.zlib.Inflates D at_) (hcap : 1024 ≤ env.recvCap) (hroom : env.recvCap + 4 < 4294967296)
    (hidle : Idle c) {s : σ} {nct : Bool} (hinf : c.inflater = some (s, nct)) (hs : at_ s [] 0)
    {ms : List (Bytes × Bytes)} (hms : SyncFlushed D nct [] ms)
    (hlone : ∀ f ∈ fs, Lone true env.isClient f) (hmsgs : messages [] fs = ms.map Prod.fst)
    (hwire : pushes.flatten ++ fut = wire fs) (hsmall : ∀ d ∈ pushes, d.length ≤ env.recvCap / 2)
    (hgrant : Event.alloc false ∉ (run env c (pushes.map .data)).log.drop c.log.length) :
    Delivers (ms.map Prod.snd) (heard ((run env c (pushes.map .data)).log.drop c.log.length)) ∧
      ((run env c (pushes.map .data)).state = .closed →
        Faulty c.log.length (run env c (pushes.map .data)).log) ∧
      (fut = [] → (run env c (pushes.map .data)).state ≠ .closed →
        heard ((run env c (pushes.map .data)).log.drop c.log.length) = (ms.map Prod.snd, [])) := by
  obtain ⟨h', hreads⟩ := hms.reads
  have hstart : Sink.Reached D at_ nct (fun _ => True) c c.log.length [] ms [] [] h' s :=
    ⟨le_rfl, rfl, hreads, .inl rfl, hinf, by rwa [List.append_nil, D.text_nil],
      by simp [heard, D.text_nil]⟩
  obtain ⟨hright, hfault, hall⟩ := run_right (I := inflated hg hm hz c.log.length nct ms hms hroom) hg hm
    hcap hidle ⟨ms, [], h', s, rfl, hstart⟩ rfl hmsgs.symm hlone hwire hsmall fun _ => hgrant
  refine ⟨?_, hfault, fun hfut hc => ?_⟩
  · obtain ⟨done, part, rest, ⟨rest', h, h'', s', hsplit', hr⟩, hsplit, hpart⟩ := hright
    obtain rfl : rest' = rest := List.append_cancel_left (hsplit'.symm.trans hsplit)
    rw [hr.heard, hsplit', List.map_append]
    refine ⟨rest'.map Prod.snd, rfl, ?_⟩
    rcases hpart with rfl | ⟨m, more, rfl, hp⟩
    · left
      rw [List.append_nil, List.drop_length]
    -- the part lies within what the decoder takes
    obtain ⟨x, htakes, htext, -⟩ := hr.behind
    obtain ⟨y, hx, -⟩ := htakes.rest ((hsplit' ▸ hms).going hr.before)
    obtain ⟨t, ht⟩ := hp
    obtain ⟨u, hu⟩ := D.text_prefix (h ++ part) (t ++ y)
    right
    refine ⟨m.2, more.map Prod.snd, rfl, u, ?_⟩
    rw [List.append_assoc, ← List.append_assoc part, ht, ← hx, htext] at hu
    rw [← List.drop_append_of_le_length (D.text_prefix h part).length_le, hu, List.drop_left]
  · obtain ⟨rest, h, h'', s', hsplit, hr⟩ := hall hfut hc
    rw [hr.heard, List.append_nil, List.drop_length]
    rfl

end

end

end Inbox

end Sevent.Ws
