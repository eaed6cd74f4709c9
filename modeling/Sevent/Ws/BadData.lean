import Sevent.Ws.Packed

-- A compressed message that is no deflate stream: on the one-shot route inflate's error ends the
-- connection.
namespace Sevent.Ws

variable {σ δ : Type}

open Conn

variable {env : Env σ δ} (hg : env.Gentle) (hm : env.onMessage.isSome = true)
variable {D : Decoder Byte Byte} {at_ : σ → Bytes → Nat → Prop}

-- ---- inflate ----

-- A call on an input that breaks reads up to the bad byte, or stops before it.
theorem Zlib.Inflates.broken {z : Zlib σ δ} (hz : z.Inflates D at_) {s : σ} {h input : Bytes} {k : Nat}
    (hs : at_ s h k) (hb : D.Breaks h input) (room : Nat) (flush : Flush) (hroom : 0 < room) :
    (z.inflate s input room flush).res = .error ∨
      Turned D at_ h k input room (z.inflate s input room flush) ∧
        D.status (h ++ input.take (z.inflate s input room flush).consumed) = .going ∧
        (z.inflate s input room flush).consumed < input.length ∧
        D.Breaks (h ++ input.take (z.inflate s input room flush).consumed)
          (input.drop (z.inflate s input room flush).consumed) := by
  obtain ⟨x, hne, hpart, hgo, hbad⟩ := hb
  have hpos : 0 < x.length := List.length_pos_iff.mpr hne
  have hstart : D.status h ≠ .bad := by
    have h0 := hgo [] List.nil_prefix hpos
    rw [List.append_nil] at h0
    rw [h0]
    decide
  have hbefore := hz.before hs hstart input room flush hroom
  have herror := hz.error hs hstart input room flush hroom
  have hturn := hz.turn hs hstart input room flush hroom
  generalize z.inflate s input room flush = r at *
  have hle : r.consumed ≤ x.length := by
    by_contra hlong
    have hp : x <+: input.take r.consumed :=
      List.prefix_of_prefix_length_le hpart (List.take_prefix _ _)
        (by rw [List.length_take]; have := hpart.length_le; omega)
    rw [hbefore x hp (by omega)] at hbad
    cases hbad
  obtain ⟨t, rfl⟩ := hpart
  rw [List.take_append_of_le_length hle] at *
  by_cases hall : r.consumed = x.length
  · left
    rw [herror, hall, List.take_length]
    exact hbad
  have hgoing : D.status (h ++ x.take r.consumed) = .going :=
    hgo _ (List.take_prefix _ _) (by rw [List.length_take]; omega)
  refine .inr ⟨hturn (by rw [hgoing]; decide), hgoing, by rw [List.length_append]; omega, ?_⟩
  refine ⟨x.drop r.consumed, ?_, ?_, fun y hy hlt => ?_, ?_⟩
  · rw [ne_eq, List.drop_eq_nil_iff]
    omega
  · rw [List.drop_append_of_le_length hle]
    exact List.prefix_append _ _
  · rw [List.append_assoc]
    refine hgo _ ?_ ?_
    · obtain ⟨u, hu⟩ := hy
      exact ⟨u, by rw [List.append_assoc, hu, List.take_append_drop]⟩
    · rw [List.length_append, List.length_take]
      rw [List.length_drop] at hlt
      omega
  · rw [List.append_assoc, List.take_append_drop]
    exact hbad

namespace Conn

include hg hm

-- The loop ends with an error, and without fin.
theorem inflateLoop_breaks (hz : env.zlib.Inflates D at_) (l : InflateLoop) (isBin : Bool) (fuel : Nat)
    {s : σ} {h input : Bytes} {k : Nat} (hs : at_ s h k) (hb : D.Breaks h input)
    (hfuel : env.zlib.backlog s input + input.length < fuel) {c : Conn σ δ} (hd : c.destroyed = false) :
    ∃ c' data, inflateLoop env l isBin fuel s input c = (false, Err.wsProtocol, c') ∧
      Told c c' data := by
  induction fuel generalizing s h input k c with
  | zero => omega
  | succ fuel ih =>
      have hcall := hz.broken hs hb decompBatch l.flush (by decide)
      have hout := env.zlib.out_le s input decompBatch l.flush
      have hback := env.zlib.backlog_le s input decompBatch l.flush
      unfold inflateLoop
      generalize env.zlib.inflate s input decompBatch l.flush = r at *
      dsimp only
      by_cases hstuck : r.res = .bufError ∧ input.drop r.consumed ≠ []
      · rw [if_pos hstuck]
        exact ⟨_, [], rfl, .of_log rfl⟩
      rw [if_neg hstuck]
      by_cases herror : r.res = .error ∨ (r.res = .streamEnd ∧ !l.acceptEnd)
      · rw [if_pos herror]
        exact ⟨_, [], rfl, .of_log rfl⟩
      rw [if_neg herror]
      obtain ⟨hturn, hgo, hlt, hrest⟩ := hcall.resolve_left fun he => herror (.inl he)
      obtain ⟨c₂, hc₂, hd', htold, -⟩ := turn_told hg hm l.site r.out isBin hd r.state
      rw [hc₂, if_neg (by simp [hd'])]
      -- the output is full, since there is input left to read
      have hfull : ¬ r.out.length < decompBatch := by
        intro hshort
        rcases (hturn.all hshort).2 with hcons | hfin
        · omega
        · cases hgo.symm.trans hfin
      have hdec : 0 < decompBatch := by decide
      rw [if_neg fun hstop => hfull hstop.1]
      obtain ⟨c', data, heq, htold'⟩ := ih hturn.state hrest (by rw [List.length_drop]; omega) hd'
      exact ⟨c', r.out ++ data, heq, htold.trans htold'⟩

theorem decompressOneshot_breaks (hz : env.zlib.Inflates D at_) {s : σ} {nct : Bool} {h : Bytes}
    (data : Bytes) (isBin : Bool) {c : Conn σ δ} (hd : c.destroyed = false)
    (hinf : c.inflater = some (s, nct)) (hs : at_ s h (D.text h).length)
    (hb : D.Breaks h (data ++ deflateTail)) (hlen : data.length + 4 < 4294967296) {n : Nat}
    (hn : n ≤ c.log.length)
    (hok : Event.alloc false ∉ (decompressOneshot env data isBin c).2.log.drop n) :
    ∃ c' out, decompressOneshot env data isBin c = (Err.wsProtocol, c') ∧ Told c c' out := by
  obtain ⟨c₀, htold₀, hd₀, -, heq⟩ := decompressOneshot_granted hm data isBin hinf hlen hn hok
  obtain ⟨c', out, hloop, htold⟩ := inflateLoop_breaks hg hm hz
    ⟨.inflateOneshot, .syncFlush, true, true⟩ isBin (inflateFuel env.zlib s (data ++ deflateTail)) hs hb
    (Nat.lt_succ_self _) (hd₀.trans hd)
  rw [hloop] at heq
  exact ⟨c', [] ++ out, heq, htold₀.trans htold⟩

omit hm in
-- The connection is given up with an error that its user is told.
theorem fatal_told {c : Conn σ δ} (err : Int) (hd : c.destroyed = false) (hc : c.state ≠ .closed)
    {n : Nat} (hn : n ≤ c.log.length) (hset : env.onError.isSome = true) :
    Event.onError err ∈ (fatal env (notify env) err c).log.drop n := by
  have hend : ∀ c' : Conn σ δ, c'.destroyed = false → n ≤ c'.log.length →
      Event.onError err ∈ (fatalEnd (notify env) err c').log.drop n := by
    intro c' hd' hn'
    have hshut := shut_ended hd'
    have hle := hn'.trans hshut.silent.log_grows.length_le
    obtain ⟨script, hscript⟩ := Option.isSome_iff_exists.mp hset
    have hnote : notify env (.error err) c'.shut =
        calls env (notifyNested env) (script (c'.shut.log ++ [.onError err]))
          (c'.shut.emit (.onError err)) := by
      unfold notify noticeCallback
      rw [hscript]
      rfl
    have hgrow : (c'.shut.emit (.onError err)).log <+: (calls env (notifyNested env)
        (script (c'.shut.log ++ [.onError err])) (c'.shut.emit (.onError err))).log :=
      (calls_aside (fun n _ hd _ => notifyNested_aside n hd) _
        (hg.onError script hscript (c'.shut.log ++ [.onError err]))
        (show (c'.shut.emit (.onError err)).destroyed = false from hshut.destroyed)).log
    have hmem : Event.onError err ∈ (c'.shut.emit (.onError err)).log.drop n := by
      rw [emit, List.drop_append_of_le_length hle]
      exact List.mem_append_right _ (List.mem_singleton_self _)
    change Event.onError err ∈ (notify env (.error err) c'.shut).log.drop n
    rw [hnote]
    obtain ⟨more, hmore⟩ := hgrow
    rw [← hmore, List.drop_append]
    exact List.mem_append_left _ hmem
  unfold fatal
  rw [if_neg (by simp [gone, hd, hc])]
  dsimp only
  split
  · have h₁ : Aside (c.setState .closing) (sendFrame env (notify env) Opcode.close
        (.bytes (beCode 1002)) (c.setState .closing)).2 :=
      sendFrameRaw_aside (fun n _ hd _ => notify_aside hg n hd) Opcode.close (.bytes (beCode 1002)) false hd
    have hle : n ≤ (c.setState .closing).log.length := by
      simp only [setState, List.length_append]
      omega
    exact hend _ h₁.destroyed (hle.trans h₁.silent.log_grows.length_le)
  · exact hend c hd hn

end Conn

-- ---- the frame ----

-- A compressed message in one frame, whose payload breaks behind `h`.
structure Broken (env : Env σ δ) (D : Decoder Byte Byte) (h : Bytes) (f : WireFrame) : Prop where
  key : f.key.isSome = !env.isClient
  opens : f.opensCompressed = true
  fin : f.fin = true
  breaks : D.Breaks h (f.payload ++ deflateTail)
  size : min env.recvCap f.payload.length + 4 < 4294967296

namespace Sink

variable (hz : env.zlib.Inflates D at_) {nct : Bool} {n : Nat} {ms : List (Bytes × Bytes)}

-- The sink of the messages in front of it: these may come in pieces.
def front (n : Nat) (hms : SyncFlushed D nct [] ms)
    (hsize : ∀ m ∈ ms, min env.recvCap m.1.length + 4 < 4294967296) : Sink env :=
  packed hg hm hz n nct ms (· < ms.length) hsize fun _ _ _ _ hall hr _ => (hall ▸ hms).going hr

variable {hg hm hz} {hms : SyncFlushed D nct [] ms}
variable {hsize : ∀ m ∈ ms, min env.recvCap m.1.length + 4 < 4294967296}

-- All of them have been heard, and inflate stands behind them.
theorem front_reached {c : Conn σ δ} {done part}
    (h : (front hg hm hz n hms hsize).Caught c [] done part) :
    c.msg.mode = .none ∧ n ≤ c.log.length ∧ heard (c.log.drop n) = (ms.map Prod.snd, []) ∧
      ∃ s, c.inflater = some (s, nct) ∧ at_ s (behind nct [] ms) (D.text (behind nct [] ms)).length := by
  have hmode : c.msg.mode = .none := by simpa [Legal] using h.legal
  obtain ⟨rest, a, a', s, hall, hr⟩ := h.done
  have ha := hms.behind hr.before
  have hstate := hr.state
  have hheard := hr.heard
  rw [List.append_nil, ha] at hstate
  rw [List.append_nil, List.drop_length] at hheard
  exact ⟨hmode, hr.log, hheard, s, hr.inflater, hstate⟩

-- The bad message as a whole.
theorem broken_whole {c : Conn σ δ} {f : WireFrame} {x done part}
    (h : (front hg hm hz n hms hsize).Caught c [] done part) (hf : Broken env D (behind nct [] ms) f)
    (hx : c.recv = f.bytes ++ x) (hroom : c.recv.length ≤ env.recvCap)
    (hclean : (front hg hm hz n hms hsize).Clean (wholeFrame env f.header f.head.length c).2.log) :
    ∃ c', wholeFrame env f.header f.head.length c = (.ret Err.wsProtocol, c') ∧
      Justified n c' ∧ (heard (c'.log.drop n)).1 = ms.map Prod.snd := by
  obtain ⟨hmode, hn, hheard, s, hinf, hs⟩ := front_reached h
  have hlen : f.payload.length ≤ env.recvCap := by
    rw [hx, List.length_append, f.bytes_length] at hroom
    omega
  have hsmall := hf.size
  have hopens := hf.opens
  simp only [WireFrame.opensCompressed, Bool.and_eq_true, Bool.or_eq_true, beq_iff_eq] at hopens
  obtain ⟨hop, hrsv⟩ := hopens
  have hctl : Opcode.isControl f.opcode = false := by rcases hop with hop | hop <;> rw [hop] <;> decide
  have hcont : f.opcode ≠ Opcode.cont := by rcases hop with hop | hop <;> rw [hop] <;> decide
  have hready : c.deflate.isSome = true := by
    have hsome : c.inflater.isSome = true := by rw [hinf]; rfl
    rwa [Conn.inflater, Option.isSome_map] at hsome
  have h₀ := emit_calm (c := { c with recv := f.head ++ f.payload ++ x }) h.alive
    (.dataFrame f.header.opcode f.header.payloadLen f.header.fin true)
  have hj₀ := h₀.keeps n ⟨h.just.le, h.just.state, h.just.stream, h.just.closed⟩
  unfold wholeFrame at hclean ⊢
  rw [framePayload_wire hx, unmaskFrame_wire hx] at hclean ⊢
  rw [if_neg (by simp [hf.key])] at hclean ⊢
  dsimp only at hclean ⊢
  rw [if_neg (by simp), if_neg (by simp [hctl]), if_neg (by simp [Option.isSome_iff_ne_none.mp hready]),
    if_neg (by simp [hcont]), if_pos ⟨hrsv, hf.fin⟩] at hclean ⊢
  unfold oneshotFrame at hclean ⊢
  rw [if_neg (by simp [hmode])] at hclean ⊢
  dsimp only at hclean ⊢
  have htold₀ : Told c ({ c with recv := f.head ++ f.payload ++ x }.emit
      (.dataFrame f.header.opcode f.header.payloadLen f.header.fin true)) [] :=
    .of_unheard ⟨[_], rfl, by simp [Event.delivers]⟩
  have hinf₀ : ({ c with recv := f.head ++ f.payload ++ x }.emit
      (.dataFrame f.header.opcode f.header.payloadLen f.header.fin true)).inflater = some (s, nct) := hinf
  generalize { c with recv := f.head ++ f.payload ++ x }.emit
    (.dataFrame f.header.opcode f.header.payloadLen f.header.fin true) = c₀ at *
  have hcalm := decompressOneshot_calm hg hm f.payload (f.header.opcode == Opcode.binary) h₀.destroyed
  have hfail := decompressOneshot_breaks hg hm hz f.payload (f.header.opcode == Opcode.binary)
    h₀.destroyed hinf₀ hs hf.breaks (by omega) (htold₀ n hn).1
  generalize decompressOneshot env f.payload (f.header.opcode == Opcode.binary) c₀ = r at *
  have hlog : (front hg hm hz n hms hsize).Clean r.2.log := by
    revert hclean
    split_ifs <;> exact id
  obtain ⟨c', out, rfl, htold⟩ := hfail fun hmem => by cases hlog.1 _ hmem
  rw [if_pos (show Err.wsProtocol ≠ 0 by decide)]
  obtain ⟨-, hheard'⟩ := (htold₀.trans htold) n hn
  exact ⟨c', rfl, hcalm.keeps n hj₀, by rw [hheard', hheard]⟩

-- A large first part of the bad message would be seen in the log.
theorem broken_large {c : Conn σ δ} {f : WireFrame} {done part}
    (h : (front hg hm hz n hms hsize).Caught c [] done part) (hf : Broken env D (behind nct [] ms) f)
    (hclean : (front hg hm hz n hms hsize).Clean (beginStream env f.header f.head.length c).2.log) :
    False := by
  obtain ⟨hmode, hn, hheard, s, hinf, -⟩ := front_reached h
  have hopens := hf.opens
  simp only [WireFrame.opensCompressed, Bool.and_eq_true, Bool.or_eq_true, beq_iff_eq] at hopens
  obtain ⟨hop, hrsv⟩ := hopens
  have hcont : f.opcode ≠ Opcode.cont := by rcases hop with hop | hop <;> rw [hop] <;> decide
  have hready : c.deflate.isSome = true := by
    have hsome : c.inflater.isSome = true := by rw [hinf]; rfl
    rwa [Conn.inflater, Option.isSome_map] at hsome
  unfold beginStream at hclean
  rw [if_neg (by simp), if_neg (by simp [Option.isSome_iff_ne_none.mp hready]), if_neg (by simp [hcont]),
    if_neg (by simp [hf.key]), if_neg (by simp [hmode]), if_neg] at hclean
  swap
  · rintro ⟨-, htext, hbin⟩
    exact hop.elim htext hbin
  dsimp only at hclean
  have htold : Told c (c.emit (.dataFrame f.header.opcode f.header.payloadLen f.header.fin
      (c.msg.compressed || f.header.rsv1))) [] := .of_unheard ⟨[_], rfl, by simp [Event.delivers]⟩
  have hmode₀ : (c.emit (.dataFrame f.header.opcode f.header.payloadLen f.header.fin
      (c.msg.compressed || f.header.rsv1))).msg.mode = .none := hmode
  have hd₀ : (c.emit (.dataFrame f.header.opcode f.header.payloadLen f.header.fin
      (c.msg.compressed || f.header.rsv1))).destroyed = false := h.alive
  generalize c.emit (.dataFrame f.header.opcode f.header.payloadLen f.header.fin
    (c.msg.compressed || f.header.rsv1)) = c₀ at *
  obtain ⟨hn₀, hheard₀⟩ := htold n hn
  unfold joinStream at hclean
  rw [show (c₀.emit (.streamFrame c₀.msg.mode c₀.frag.length)).msg.mode = .none from hmode₀, hmode₀] at hclean
  dsimp only at hclean
  rw [if_neg (by simp)] at hclean
  -- the event that tells of it, behind all the messages
  have hgrow : (c₀.emit (.streamFrame .none c₀.frag.length)).log <+: (streamConsume env (armStream f.header
      f.head.length { c₀.emit (.streamFrame .none c₀.frag.length) with
        msg :=
          { mode := .stream, opcode := f.header.opcode, total := 0, finSent := false
            compressed := c₀.msg.compressed || f.header.rsv1 } })).log :=
    (streamConsume_calm hg hm (show (armStream f.header f.head.length
      { c₀.emit (.streamFrame .none c₀.frag.length) with
        msg :=
          { mode := .stream, opcode := f.header.opcode, total := 0, finSent := false
            compressed := c₀.msg.compressed || f.header.rsv1 } }).destroyed = false from hd₀)).log
  have hw := ((front hg hm hz n hms hsize).clean_mono hgrow hclean).2
  rw [emit, List.drop_append_of_le_length hn₀, whole_concat, hheard₀, hheard] at hw
  simpa using hw.2 rfl

-- The connection has been given up over the bad message, or over a fault: no fin for that message.
def Refused (env : Env σ δ) (n : Nat) (ms : List (Bytes × Bytes)) (c : Conn σ δ) : Prop :=
  n ≤ c.log.length ∧ (heard (c.log.drop n)).1 = ms.map Prod.snd ∧
    (Faulty n c.log ∨ (env.onError.isSome = true → Event.onError Err.wsProtocol ∈ c.log.drop n))

theorem Refused.aside {c c' : Conn σ δ} (h : Refused env n ms c) (ha : Aside c c') :
    Refused env n ms c' := by
  obtain ⟨hn, hheard, hend⟩ := h
  obtain ⟨hle, heq⟩ := heard_unheard hn ha.silent.unheard
  refine ⟨hle, by rw [heq, hheard], hend.imp (fun hf => hf.mono ha.log) fun htold hset => ?_⟩
  obtain ⟨more, hmore⟩ := ha.log
  rw [← hmore, List.drop_append]
  exact List.mem_append_left _ (htold hset)

theorem refused_fatal {c : Conn σ δ} (hg : env.Gentle) (hd : c.destroyed = false) (hj : Justified n c)
    (hheard : (heard (c.log.drop n)).1 = ms.map Prod.snd) :
    Refused env n ms (fatal env (notify env) Err.wsProtocol c) := by
  have ha : Aside c (fatal env (notify env) Err.wsProtocol c) :=
    (fatal_ended (fun n _ hd _ => notify_aside hg n hd) Err.wsProtocol hd).aside
  obtain ⟨hle, heq⟩ := heard_unheard hj.le ha.silent.unheard
  refine ⟨hle, by rw [heq, hheard], ?_⟩
  by_cases hc : c.state = .closed
  · exact .inl ((hj.closed hc).mono ha.log)
  · exact .inr fun hset => fatal_told hg Err.wsProtocol hd hc hj.le hset

variable (hg hm hz hms hsize) in
-- The messages in front are read by their sink, and then comes the bad one.
def brokenReader (hcap : 0 < env.recvCap) {f : WireFrame} (hf : Broken env D (behind nct [] ms) f) :
    Reader env :=
  let R := (front hg hm hz n hms hsize).reader hg hm hcap
  { Clean := R.Clean
    Mid c fs := ∃ gs, fs = gs ++ [f] ∧ R.Mid c gs
    In c r fs := ∃ gs, fs = gs ++ [f] ∧ R.In c r gs
    Given err c := R.Given err c ∨
      err = Err.wsProtocol ∧ Justified n c ∧ (heard (c.log.drop n)).1 = ms.map Prod.snd
    Fair c := R.Fair c ∨ Refused env n ms c
    clean_mono := R.clean_mono
    mid_fair := fun ⟨_, _, h⟩ hc => .inl (R.mid_fair h hc)
    in_fair := fun ⟨_, _, h⟩ hc => .inl (R.in_fair h hc)
    in_mode := fun ⟨_, _, h⟩ => R.in_mode h
    fair_aside := fun h ha => h.imp (R.fair_aside · ha) (·.aside ha)
    given_fatal := by
      rintro c err hd (h | ⟨rfl, hj, hheard⟩)
      · exact .inl (R.given_fatal hd h)
      · exact .inr (refused_fatal hg hd hj hheard)
    mid_data := fun b ⟨gs, hfs, h⟩ => ⟨gs, hfs, R.mid_data b h⟩
    in_data := fun b ⟨gs, hfs, h⟩ => ⟨gs, hfs, R.in_data b h⟩
    whole := by
      rintro c f' fs x hd hopen ⟨gs, hfs, h⟩ hx hroom hclean
      cases gs with
      | nil =>
          obtain ⟨rfl, -⟩ := List.cons.inj hfs
          obtain ⟨done, part, h⟩ := h
          obtain ⟨c', heq, hj, hheard⟩ := broken_whole h hf hx hroom hclean
          rw [heq]
          exact .inr ⟨Err.wsProtocol, rfl, by decide, .inr ⟨rfl, hj, hheard⟩⟩
      | cons g gs =>
          obtain ⟨rfl, hrest⟩ := List.cons.inj hfs
          rcases R.whole hd hopen h hx hroom hclean with ⟨hgo, hrecv, hrem, hnext⟩ | ⟨r, hr, hne, hgiven⟩
          · exact .inl ⟨hgo, hrecv, hrem, hnext.imp (fun h => ⟨gs, hrest, h⟩) fun h => ⟨h.1, .inl h.2⟩⟩
          · exact .inr ⟨r, hr, hne, .inl hgiven⟩
    begin := by
      rintro c f' fs x hd hopen ⟨gs, hfs, h⟩ hx hbig hlen hclean
      cases gs with
      | nil =>
          obtain ⟨rfl, -⟩ := List.cons.inj hfs
          obtain ⟨done, part, h⟩ := h
          exact (broken_large h hf hclean).elim
      | cons g gs =>
          obtain ⟨rfl, hgs⟩ := List.cons.inj hfs
          obtain ⟨c', heq, hd', hin, hrest⟩ := R.begin hd hopen h hx hbig hlen hclean
          exact ⟨c', heq, hd', ⟨gs, hgs, hin⟩, hrest⟩
    consume := by
      rintro c a b x fs hd ⟨gs, hfs, h⟩ ha hrecv hend hrem hroom hclean
      obtain ⟨hx, hdone, hgo⟩ := R.consume hd h ha hrecv hend hrem hroom hclean
      exact ⟨hx, fun hb => ⟨⟨gs, hfs, (hdone hb).1⟩, (hdone hb).2⟩,
        fun hb => ⟨⟨gs, hfs, (hgo hb).1⟩, (hgo hb).2⟩⟩ }

-- What has been heard ends no message but those in front.
theorem front_right {c : Conn σ δ} (h : (front hg hm hz n hms hsize).Right c) :
    (heard (c.log.drop n)).1 <+: ms.map Prod.snd := by
  obtain ⟨done, part, rest, ⟨rest', a, a', s, hall, hr⟩, -⟩ := h
  rw [hr.heard]
  exact (List.prefix_append done rest' : done <+: done ++ rest').map Prod.snd |>.trans
    (hall ▸ List.prefix_rfl)

end Sink

namespace Conn

-- Behind messages that end with a sync flush, one whose payload breaks is refused, in every run in
-- which it is taken as one whole frame: the connection is closed with a protocol error once it has
-- been pushed, and it has no fin.
theorem bad_data_fails (env : Env σ δ) (hg : env.Gentle) (hm : env.onMessage.isSome = true)
    (hcap : 1024 ≤ env.recvCap) (D : Decoder Byte Byte) (at_ : σ → Bytes → Nat → Prop)
    (hz : env.zlib.Inflates D at_) (c : Conn σ δ) (hidle : Idle c) (s : σ) (nct : Bool)
    (hinf : c.inflater = some (s, nct)) (hs : at_ s [] 0) (ms : List (Bytes × Bytes))
    (hms : SyncFlushed D nct [] ms) (hsize : ∀ m ∈ ms, min env.recvCap m.1.length + 4 < 4294967296)
    (gs : List WireFrame) (hlegal : Legal WireFrame.opensCompressed env.isClient false gs)
    (hmsgs : messages [] gs = ms.map Prod.fst) (f : WireFrame)
    (hf : Broken env D (behind nct [] ms) f) (pushes : List Bytes) (fut : Bytes)
    (hwire : pushes.flatten ++ fut = wire (gs ++ [f]))
    (hsmall : ∀ d ∈ pushes, d.length ≤ env.recvCap / 2)
    (hroute : ∀ e ∈ (run env c (pushes.map .data)).log.drop c.log.length,
      e.loses env.recvCap = false)
    (hwhole : Whole (· < ms.length) ((run env c (pushes.map .data)).log.drop c.log.length)) :
    (heard ((run env c (pushes.map .data)).log.drop c.log.length)).1 <+: ms.map Prod.snd ∧
      (fut = [] → (run env c (pushes.map .data)).state = .closed ∧
        (Faulty c.log.length (run env c (pushes.map .data)).log ∨
          (env.onError.isSome = true →
            Event.onError Err.wsProtocol ∈ (run env c (pushes.map .data)).log.drop c.log.length))) := by
  have hpos : 0 < env.recvCap := by omega
  obtain ⟨h', hreads⟩ := hms.reads
  have hstart : Sink.Reached D at_ nct (· < ms.length) c c.log.length [] ms [] [] h' s :=
    ⟨le_rfl, rfl, hreads, .inl rfl, hinf, by rwa [List.append_nil, D.text_nil],
      by simp [heard, D.text_nil]⟩
  have hcaught : (Sink.front hg hm hz c.log.length hms hsize).Caught c gs [] [] :=
    .idle hidle ⟨ms, [], h', s, rfl, hstart⟩ le_rfl hmsgs.symm hlegal
  have hrests : (Sink.brokenReader hg hm hz hms hsize (n := c.log.length) hpos hf).Rests
      (pushes.flatten ++ fut) c :=
    .inl ⟨gs ++ [f], ⟨hidle.alive, ⟨gs, rfl, [], [], hcaught⟩, hidle.remaining,
      by simp [hidle.recv, hwire], by simp [hidle.recv]⟩, .inl hidle.recv⟩
  rcases Reader.run_ends hg hm hcap pushes hrests (.inl hidle.state) hidle.stream (.inl hsmall)
    ⟨hroute, hwhole⟩ with ⟨hc, hfair⟩ | hend
  · rcases hfair with ⟨hright, hfault⟩ | ⟨-, hheard, hend⟩
    · exact ⟨Sink.front_right hright, fun _ => ⟨hc, .inl hfault⟩⟩
    · exact ⟨hheard ▸ List.prefix_rfl, fun _ => ⟨hc, hend⟩⟩
  · refine ⟨?_, fun hfut => ?_⟩
    · rcases hend with ⟨fs', h, -⟩ | ⟨r, fs', h, -⟩
      · obtain ⟨gs', -, done, part, h⟩ := h.mid
        exact Sink.front_right h.right
      · obtain ⟨gs', -, done, part, h⟩ := h.inside
        exact Sink.front_right h.right
    · subst hfut
      obtain ⟨⟨gs', hnil, -⟩, -⟩ := hend.done
      exact absurd hnil.symm (by simp)

-- A block of the reserved type behind a good message.
def goodFrames : List WireFrame := [clientFrame true true .text (storedMessage [0x41]) (by decide)]

def reservedTypeFrame : WireFrame := clientFrame true true .binary [0x07] (by decide)

theorem bad_data_fails_reserved :
    (run packedServer packedOpen ((pieces (wire (goodFrames ++ [reservedTypeFrame]))).map .data)).state = .closed ∧
      (Faulty packedOpen.log.length
          (run packedServer packedOpen ((pieces (wire (goodFrames ++ [reservedTypeFrame]))).map .data)).log ∨
        (packedServer.onError.isSome = true → Event.onError Err.wsProtocol ∈
          (run packedServer packedOpen ((pieces (wire (goodFrames ++ [reservedTypeFrame]))).map .data)).log.drop
            packedOpen.log.length)) := by
  have hbroken : Broken packedServer stored (behind false [] [(storedMessage [0x41], [0x41])])
      reservedTypeFrame := by
    have hgo : stored.Going (behind false [] [(storedMessage [0x41], [0x41])]) [] := by decide
    refine ⟨rfl, rfl, rfl, ⟨[0x07], by decide, by decide, fun y hy hlt => ?_, by decide⟩, by decide⟩
    exact hgo y (List.prefix_of_prefix_length_le hy List.nil_prefix (Nat.le_of_lt_succ hlt))
  obtain ⟨hidle, hinf, hms, hsize, hlegal, hmsgs, hwire, hsmall, hroute, hwhole⟩ :
      Idle packedOpen ∧ packedOpen.inflater = some ((.start, []), false) ∧
      SyncFlushed stored false [] [(storedMessage [0x41], [0x41])] ∧
      (∀ m ∈ [(storedMessage [0x41], ([0x41] : Bytes))],
        min packedServer.recvCap m.1.length + 4 < 4294967296) ∧
      Legal WireFrame.opensCompressed packedServer.isClient false goodFrames ∧
      messages [] goodFrames = [(storedMessage [0x41], ([0x41] : Bytes))].map Prod.fst ∧
      (pieces (wire (goodFrames ++ [reservedTypeFrame]))).flatten ++ [] = wire (goodFrames ++ [reservedTypeFrame]) ∧
      (∀ d ∈ pieces (wire (goodFrames ++ [reservedTypeFrame])), d.length ≤ packedServer.recvCap / 2) ∧
      (∀ e ∈ (run packedServer packedOpen
        ((pieces (wire (goodFrames ++ [reservedTypeFrame]))).map .data)).log.drop packedOpen.log.length,
        e.loses packedServer.recvCap = false) ∧
      Whole (· < 1) ((run packedServer packedOpen
        ((pieces (wire (goodFrames ++ [reservedTypeFrame]))).map .data)).log.drop packedOpen.log.length) := by
    rw [packedOpen_eq, Whole]
    decide
  exact (bad_data_fails packedServer packedServer_gentle rfl (by decide) stored
    (StepsAt .start Block.step) zlibStored_inflates packedOpen hidle (.start, []) false hinf
    ⟨rfl, le_rfl, rfl⟩ [(storedMessage [0x41], [0x41])] hms hsize goodFrames hlegal hmsgs reservedTypeFrame
    hbroken (pieces (wire (goodFrames ++ [reservedTypeFrame]))) [] hwire hsmall hroute hwhole).2 rfl

-- The same block in a message of two frames: the error is dropped, and the message has its fin.
def badFragments : List WireFrame :=
  [clientFrame false true .binary [0x07] (by decide), clientFrame true false .cont [0x00] (by decide)]

theorem bad_fragments_delivered :
    Idle packedOpen ∧ packedOpen.inflater = some ((.start, []), false) ∧
      stored.status [0x07] = .bad ∧
      Legal WireFrame.opensCompressed packedServer.isClient false badFragments ∧
      messages [] badFragments = [[0x07, 0x00]] ∧
      (run packedServer packedOpen [.data (wire badFragments)]).state = .opened ∧
      heard ((run packedServer packedOpen [.data (wire badFragments)]).log.drop
        packedOpen.log.length) = ([[]], []) := by
  rw [packedOpen_eq]
  decide

end Conn

end Sevent.Ws
