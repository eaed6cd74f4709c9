import Sevent.Ws.Packed

-- Messages of a peer that keeps no context: each is decoded by itself, whichever blocks end it.
namespace Sevent.Ws

variable {σ δ : Type}

open Conn

variable {D : Decoder Byte Byte} {P : Bytes → Prop}

-- A payload that stands for its text by itself. One without a final block ends at a place where
-- another stream may begin.
def Alone (D : Decoder Byte Byte) (P : Bytes → Prop) (m : Bytes × Bytes) : Prop :=
  ∃ x, D.Takes [] x (m.1 ++ deflateTail) ∧ D.text x = m.2 ∧ (D.status x = .going → P x)

-- Behind a stream that may be followed by another one, a message is read as it is by itself.
theorem Alone.takes (hP : D.Restarts P) {m : Bytes × Bytes} (hm : Alone D P m) {h : Bytes} (hh : P h) :
    ∃ x, D.Takes h x (m.1 ++ deflateTail) ∧ D.text (h ++ x) = D.text h ++ m.2 := by
  obtain ⟨x, htakes, htext, -⟩ := hm
  have hgood : D.status x ≠ .bad := htakes.good List.prefix_rfl
  exact ⟨x, hP.takes hh htakes, by rw [hP.text hh hgood, htext]⟩

-- The next message can be read behind one that has no final block, or behind a reset.
theorem Alone.next (hP : D.Restarts P) {m : Bytes × Bytes} (hm : Alone D P m) {h x : Bytes} (hh : P h)
    {nct : Bool} (hgo : nct = true ∨ D.Going [] (m.1 ++ deflateTail))
    (hx : D.Takes h x (m.1 ++ deflateTail)) : P (rebased nct (h ++ x)) := by
  cases nct with
  | true => exact hP.start
  | false =>
      have hgoing : D.Going [] (m.1 ++ deflateTail) := hgo.resolve_left (by simp)
      obtain ⟨y, htakes, -, hplace⟩ := hm
      obtain rfl : y = m.1 ++ deflateTail := htakes.unique hgoing.takes
      rw [hx.unique (hP.takes hh htakes)]
      exact hP.append hh (hplace (hgoing _ List.prefix_rfl))

-- Only the last message has a final block, unless inflate is reset behind every one.
def LastEnds (D : Decoder Byte Byte) (nct : Bool) (ms : List (Bytes × Bytes)) : Prop :=
  nct = true ∨ ∀ m ∈ ms.dropLast, D.Going [] (m.1 ++ deflateTail)

theorem LastEnds.head {nct : Bool} {m m' : Bytes × Bytes} {rest : List (Bytes × Bytes)}
    (h : LastEnds D nct (m :: m' :: rest)) : nct = true ∨ D.Going [] (m.1 ++ deflateTail) :=
  h.imp id fun hall => hall m (by simp)

theorem LastEnds.tail {nct : Bool} {m : Bytes × Bytes} {rest : List (Bytes × Bytes)}
    (h : LastEnds D nct (m :: rest)) : LastEnds D nct rest := by
  cases rest with
  | nil => exact .inr (by simp)
  | cons m' rest => exact h.imp id fun hall m'' hm => hall m'' (by simp [hm])

theorem alone_reads (hP : D.Restarts P) {nct : Bool} {ms : List (Bytes × Bytes)}
    (hms : ∀ m ∈ ms, Alone D P m) (hlast : LastEnds D nct ms) {h : Bytes} (hh : P h) :
    ∃ h', Decodes D nct h ms h' := by
  induction ms generalizing h with
  | nil => exact ⟨h, rfl⟩
  | cons m rest ih =>
      have hm := hms m (List.mem_cons_self ..)
      obtain ⟨x, htakes, htext⟩ := hm.takes hP hh
      cases rest with
      | nil => exact ⟨_, x, htakes, htext, rfl⟩
      | cons m' rest =>
          obtain ⟨h', hr⟩ := ih (fun m hm => hms m (List.mem_cons_of_mem _ hm)) hlast.tail
            (hm.next hP hh hlast.head htakes)
          exact ⟨h', x, htakes, htext, hr⟩

-- Wherever a message begins, it is read as it is by itself.
theorem reads_place (hP : D.Restarts P) {nct : Bool} {done rest : List (Bytes × Bytes)}
    {m : Bytes × Bytes} (hms : ∀ m' ∈ done ++ m :: rest, Alone D P m')
    (hlast : LastEnds D nct (done ++ m :: rest)) {a h : Bytes} (ha : P a) (hr : Decodes D nct a done h) :
    P h := by
  induction done generalizing a with
  | nil =>
      cases hr
      exact ha
  | cons m' done ih =>
      obtain ⟨x, htakes, -, hr⟩ := hr
      have hm := hms m' (List.mem_cons_self ..)
      refine ih (fun m hm => hms m (List.mem_cons_of_mem _ hm)) hlast.tail ?_ hr
      refine hm.next hP ha ?_ htakes
      cases done with
      | nil => exact hlast.head
      | cons m'' done => exact hlast.head

namespace Conn

-- Messages that are decoded by themselves are heard as their texts, in every run in which a message
-- with a final block comes in one small frame and is the last one, unless inflate is reset, and in
-- which the buffers lose nothing.
theorem alone_lossless (env : Env σ δ) (hg : env.Gentle) (hm : env.onMessage.isSome = true)
    (hcap : 1024 ≤ env.recvCap) (D : Decoder Byte Byte) (at_ : σ → Bytes → Nat → Prop)
    (hz : env.zlib.Inflates D at_) (P : Bytes → Prop) (hP : D.Restarts P) (c : Conn σ δ)
    (hidle : Idle c) (s : σ) (nct : Bool) (hinf : c.inflater = some (s, nct)) (hs : at_ s [] 0)
    (ms : List (Bytes × Bytes)) (hms : ∀ m ∈ ms, Alone D P m) (hlast : LastEnds D nct ms)
    (hsize : ∀ m ∈ ms, min env.recvCap m.1.length + 4 < 4294967296)
    (fs : List WireFrame) (hlegal : Legal WireFrame.opensCompressed env.isClient false fs)
    (hmsgs : messages [] fs = ms.map Prod.fst) (pushes : List Bytes) (fut : Bytes)
    (hwire : pushes.flatten ++ fut = wire fs) (hsmall : ∀ d ∈ pushes, d.length ≤ env.recvCap / 2)
    (hroute : ∀ e ∈ (run env c (pushes.map .data)).log.drop c.log.length,
      e.loses env.recvCap = false)
    (hwhole : Whole (fun i => ∀ m ∈ ms[i]?, D.Going [] m.1)
      ((run env c (pushes.map .data)).log.drop c.log.length)) :
    Delivers (ms.map Prod.snd) (heard ((run env c (pushes.map .data)).log.drop c.log.length)) ∧
      ((run env c (pushes.map .data)).state = .closed →
        Faulty c.log.length (run env c (pushes.map .data)).log) ∧
      (fut = [] → (run env c (pushes.map .data)).state ≠ .closed →
        heard ((run env c (pushes.map .data)).log.drop c.log.length) = (ms.map Prod.snd, [])) := by
  obtain ⟨h', hreads⟩ := alone_reads hP hms hlast hP.start
  have hgoing : ∀ done m rest h, ms = done ++ m :: rest → Decodes D nct [] done h →
      (∀ m ∈ ms[done.length]?, D.Going [] m.1) → D.Going h m.1 := by
    rintro done m rest h rfl hr hw
    exact hP.going (reads_place hP hms hlast hP.start hr) (hw m (by simp))
  exact Sink.packed_right hg hm hz hsize hgoing hcap hidle hinf hs hreads hlegal hmsgs hwire hsmall
    hroute hwhole

-- The same block, marked as the final one of a stream.
def storedFinal (data : Bytes) : Bytes := 0x01 :: (storedMessage data).drop 1

-- A small message in one frame, one in three frames, and one with a final block.
def aloneMessages : List (Bytes × Bytes) :=
  [(storedMessage [0x41, 0x48], [0x41, 0x48]), (storedMessage [0x43, 0x44, 0x45], [0x43, 0x44, 0x45]),
    (storedFinal [0x46], [0x46])]

def aloneFrames : List WireFrame :=
  [clientFrame true true .text (storedMessage [0x41, 0x48]) (by decide),
    clientFrame false true .binary ((storedMessage [0x43, 0x44, 0x45]).take 6) (by decide),
    clientFrame true false .cont ((storedMessage [0x43, 0x44, 0x45]).drop 6) (by decide),
    clientFrame true true .binary (storedFinal [0x46]) (by decide)]

theorem alone_lossless_stored :
    (run packedServer packedOpen ((pieces (wire aloneFrames)).map .data)).state ≠ .closed ∧
      heard ((run packedServer packedOpen ((pieces (wire aloneFrames)).map .data)).log.drop
        packedOpen.log.length) = (aloneMessages.map Prod.snd, []) := by
  have hms : ∀ m ∈ aloneMessages, Alone stored AtStart m := by
    intro m hm
    simp only [aloneMessages, List.mem_cons, List.not_mem_nil, or_false] at hm
    rcases hm with rfl | rfl | rfl
    · have hgo : stored.Going [] (storedMessage [0x41, 0x48] ++ deflateTail) := by decide
      exact ⟨_, hgo.takes, by decide, fun _ => by decide⟩
    · have hgo : stored.Going [] (storedMessage [0x43, 0x44, 0x45] ++ deflateTail) := by decide
      exact ⟨_, hgo.takes, by decide, fun _ => by decide⟩
    · have hbefore : stored.Going [] ([0x01, 0x01, 0x00, 0xFE, 0xFF] : Bytes) := by decide
      refine ⟨[0x01, 0x01, 0x00, 0xFE, 0xFF, 0x46], ⟨by decide, fun y hy hlt => ?_, .inl (by decide)⟩,
        by decide, fun h => by cases h⟩
      exact hbefore y (List.prefix_of_prefix_length_le hy (by decide) (Nat.le_of_lt_succ hlt))
  obtain ⟨hidle, hinf, hlast, hsize, hlegal, hmsgs, hwire, hsmall, hroute, hwhole, hopen⟩ :
      Idle packedOpen ∧ packedOpen.inflater = some ((.start, []), false) ∧
      (∀ m ∈ aloneMessages.dropLast, stored.Going [] (m.1 ++ deflateTail)) ∧
      (∀ m ∈ aloneMessages, min packedServer.recvCap m.1.length + 4 < 4294967296) ∧
      Legal WireFrame.opensCompressed packedServer.isClient false aloneFrames ∧
      messages [] aloneFrames = aloneMessages.map Prod.fst ∧
      (pieces (wire aloneFrames)).flatten ++ [] = wire aloneFrames ∧
      (∀ d ∈ pieces (wire aloneFrames), d.length ≤ packedServer.recvCap / 2) ∧
      (∀ e ∈ (run packedServer packedOpen ((pieces (wire aloneFrames)).map .data)).log.drop
        packedOpen.log.length, e.loses packedServer.recvCap = false) ∧
      Whole (fun i => ∀ m ∈ aloneMessages[i]?, stored.Going [] m.1)
        ((run packedServer packedOpen ((pieces (wire aloneFrames)).map .data)).log.drop
          packedOpen.log.length) ∧
      (run packedServer packedOpen ((pieces (wire aloneFrames)).map .data)).state ≠ .closed := by
    rw [packedOpen_eq, Whole]
    decide
  exact ⟨hopen, (alone_lossless packedServer packedServer_gentle rfl (by decide) stored
    (StepsAt .start Block.step) zlibStored_inflates AtStart stored_restarts
    packedOpen hidle (.start, []) false hinf ⟨rfl, le_rfl, rfl⟩ aloneMessages hms (.inr hlast) hsize
    aloneFrames hlegal hmsgs (pieces (wire aloneFrames)) [] hwire hsmall hroute hwhole).2.2 rfl hopen⟩

-- Two messages with a final block: inflate stands behind the end of the first, and the second is
-- heard without a byte.
def finalFrames : List WireFrame :=
  [clientFrame true true .binary (storedFinal [0x41]) (by decide),
    clientFrame true true .binary (storedFinal [0x42]) (by decide)]

theorem final_block_silences :
    Idle packedOpen ∧ packedOpen.inflater = some ((.start, []), false) ∧
      stored.text (storedFinal [0x41] ++ deflateTail) = [0x41] ∧
      stored.text (storedFinal [0x42] ++ deflateTail) = [0x42] ∧
      Legal WireFrame.opensCompressed packedServer.isClient false finalFrames ∧
      messages [] finalFrames = [storedFinal [0x41], storedFinal [0x42]] ∧
      (wire finalFrames).length ≤ packedServer.recvCap / 2 ∧
      (run packedServer packedOpen [.data (wire finalFrames)]).state = .opened ∧
      heard ((run packedServer packedOpen [.data (wire finalFrames)]).log.drop
        packedOpen.log.length) = ([[0x41], []], []) := by
  rw [packedOpen_eq]
  decide

end Conn

end Sevent.Ws
