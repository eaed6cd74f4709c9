import Sevent.Ws.Gentle

-- Why a connection ends: as long as every frame reaches the stream and no allocation fails,
-- gentle callbacks leave it open.
namespace Sevent.Ws

open Sevent.Stream (WriteRes)

variable {σ δ : Type}

-- An allocation that failed, or a frame that did not reach the stream as it should.
def Event.fault : Event → Bool
  | .alloc ok => !ok
  | .frameOut _ _ res => res != .ok
  | _ => false

-- Something has failed since the log had `n` events.
def Faulty (n : Nat) (log : List Event) : Prop := ∃ e ∈ log.drop n, e.fault = true

instance decidableFaulty (n : Nat) (log : List Event) : Decidable (Faulty n log) :=
  inferInstanceAs (Decidable (∃ e ∈ log.drop n, e.fault = true))

theorem Faulty.mono {n : Nat} {log log' : List Event} (h : Faulty n log) (hp : log <+: log') :
    Faulty n log' := by
  obtain ⟨e, he, hf⟩ := h
  obtain ⟨more, rfl⟩ := hp
  refine ⟨e, ?_, hf⟩
  rw [List.drop_append]
  exact List.mem_append_left _ he

theorem Faulty.of_append {n : Nat} {log pre : List Event} {e : Event} (hn : n ≤ log.length)
    (he : e.fault = true) : Faulty n (log ++ pre ++ [e]) := by
  refine ⟨e, ?_, he⟩
  rw [List.append_assoc, List.drop_append_of_le_length hn]
  simp

namespace Conn

-- Open, or closed by a fault.
structure Justified (n : Nat) (c : Conn σ δ) : Prop where
  le : n ≤ c.log.length
  state : c.state = .opened ∨ c.state = .closing ∨ c.state = .closed
  stream : c.stream = .opened ∨ c.state = .closed
  closed : c.state = .closed → Faulty n c.log

-- A connection that lives on, or ends by a fault.
structure Calm (c c' : Conn σ δ) : Prop extends Mild c c' where
  keeps : ∀ n, Justified n c → Justified n c'

theorem Calm.refl {c : Conn σ δ} (hd : c.destroyed = false) : Calm c c :=
  ⟨Mild.refl hd, fun _ h => h⟩

theorem Calm.trans {a b c : Conn σ δ} (h : Calm a b) (h' : Calm b c) : Calm a c :=
  ⟨h.toMild.trans h'.toMild, fun n hn => h'.keeps n (h.keeps n hn)⟩

theorem Mild.late {c c' : Conn σ δ} (hm : Mild c c')
    (h : c.state = .opened ∨ c.state = .closing ∨ c.state = .closed) :
    c'.state = .opened ∨ c'.state = .closing ∨ c'.state = .closed := by
  rcases hm.state with hs | ⟨-, hs⟩ | hs
  · rwa [hs]
  · exact .inr (.inl hs)
  · exact .inr (.inr hs)

theorem Justified.of_fault {n : Nat} {c c' : Conn σ δ} (h : Justified n c) (hm : Mild c c')
    (hf : Faulty n c'.log) : Justified n c' := by
  refine ⟨h.le.trans hm.log.length_le, hm.late h.state, ?_, fun _ => hf⟩
  rcases hm.stream with hs | hs
  · rcases h.stream with ho | hc
    · exact .inl (hs.trans ho)
    · exact .inr (hm.closed hc)
  · exact .inr hs

-- The state is as it was.
theorem Calm.of_state {c c' : Conn σ δ} (hm : Mild c c') (hs : c'.state = c.state) : Calm c c' := by
  refine ⟨hm, fun n h => ⟨h.le.trans hm.log.length_le, hm.late h.state, ?_, fun hc => ?_⟩⟩
  · rcases hm.stream with hst | hst
    · rw [hst, hs]
      exact h.stream
    · exact .inr hst
  · exact (h.closed (hs ▸ hc)).mono hm.log

-- A connection that has ended already.
theorem Calm.of_closed {c c' : Conn σ δ} (hm : Mild c c') (hc : c.state = .closed) : Calm c c' :=
  .of_state hm ((hm.closed hc).trans hc.symm)

theorem Calm.leave {c c' : Conn σ δ} (hm : Mild c c') (hs : c'.state = .closing) : Calm c c' := by
  refine ⟨hm, fun n h => ⟨h.le.trans hm.log.length_le, .inr (.inl hs), ?_,
    fun hc => by cases hs.symm.trans hc⟩⟩
  rcases hm.stream with hst | hst
  · rcases h.stream with ho | hc
    · exact .inl (hst.trans ho)
    · cases hs.symm.trans (hm.closed hc)
  · exact .inr hst

-- Only buffers have changed.
theorem Calm.same {c c' : Conn σ δ} (hd : c.destroyed = false) (hdes : c'.destroyed = c.destroyed)
    (hstate : c'.state = c.state) (hstream : c'.stream = c.stream) (hlog : c'.log = c.log) :
    Calm c c' :=
  .of_state ⟨hdes.trans hd, .inl hstate, .inl hstream, hlog ▸ List.prefix_rfl⟩ hstate

theorem emit_calm {c : Conn σ δ} (hd : c.destroyed = false) (e : Event) : Calm c (c.emit e) :=
  .of_state ⟨hd, .inl rfl, .inl rfl, List.prefix_append _ _⟩ rfl

-- ---- the calls of the user ----

section

variable {env : Env σ δ} {nt : Notice → Conn σ δ → Conn σ δ}
variable (hn : ∀ n c, c.destroyed = false → c.state = .closed → Aside c (nt n c))

include hn

theorem settle_grows (res : WriteRes) {c : Conn σ δ} (hd : c.destroyed = false) :
    c.log <+: (settle nt res c).log := by
  cases res with
  | failed err => exact (onStreamError_ended hn err hd).silent.log_grows
  | torn accepted => exact (onStreamClose_ended hn hd).silent.log_grows
  | ok => exact List.prefix_rfl
  | nomem => exact List.prefix_rfl
  | inval => exact List.prefix_rfl

theorem sendFrameRaw_calm (opcode : Nat) (payload : Arg) (rsv1 : Bool) {c : Conn σ δ}
    (hd : c.destroyed = false) : Calm c (sendFrameRaw env nt opcode payload rsv1 c).2 := by
  have hmild : Mild c (sendFrameRaw env nt opcode payload rsv1 c).2 :=
    (sendFrameRaw_aside hn opcode payload rsv1 hd).toMild
  rcases sendFrameRaw_cases env nt opcode payload rsv1 c with
    ⟨seed, events, he, h⟩ | ⟨seed, data, res, hs, ho, h⟩
  · rw [h] at hmild ⊢
    exact .of_state hmild rfl
  · by_cases hres : res = .ok
    · subst hres
      rw [h] at hmild ⊢
      exact .of_state hmild rfl
    · refine ⟨hmild, fun n hj => hj.of_fault hmild ?_⟩
      rw [h]
      have hgrows : _ <+: _ := settle_grows hn res
        (c := Conn.written (.frameOut opcode data res) res
          { c with maskSeed := seed, log := c.log ++ [.alloc true] }) hd
      exact (Faulty.of_append hj.le (by simpa [Event.fault] using hres)).mono hgrows

-- A frame that may be sent and is not: the allocation or the write has failed.
theorem sendFrameRaw_fault {n : Nat} (opcode : Nat) (payload : Arg) (rsv1 : Bool) {c : Conn σ δ}
    (hd : c.destroyed = false) (hs : c.stream = .opened) (hle : n ≤ c.log.length)
    (hrc : (sendFrameRaw env nt opcode payload rsv1 c).1 = Err.wsWrite ∨
      (sendFrameRaw env nt opcode payload rsv1 c).1 = Err.nomem) :
    Faulty n (sendFrameRaw env nt opcode payload rsv1 c).2.log := by
  revert hrc
  unfold sendFrameRaw
  extract_lets isCtrl seed c₁ key
  intro hrc
  have hlog : c₁.log = c.log := by
    simp only [c₁]
    split <;> rfl
  have hstream : c₁.stream = .opened := by
    simp only [c₁]
    split <;> exact hs
  have hd₁ : c₁.destroyed = false := by
    simp only [c₁]
    split <;> exact hd
  clear_value c₁
  by_cases h1 : c.state = .closing ∧ !isCtrl
  · rw [if_pos h1] at hrc
    simp [Err.inval, Err.wsWrite, Err.nomem] at hrc
  rw [if_neg h1] at hrc ⊢
  by_cases h2 : c.state ≠ .opened ∧ c.state ≠ .closing
  · rw [if_pos h2] at hrc
    simp [Err.inval, Err.wsWrite, Err.nomem] at hrc
  rw [if_neg h2] at hrc ⊢
  cases hh : buildHeader true rsv1 opcode key payload.len with
  | none => simp [hh, Err.inval, Err.wsWrite, Err.nomem] at hrc
  | some hdr =>
      simp only [hh, alloc] at hrc ⊢
      by_cases h3 : env.alloc c₁.log = true
      · simp only [h3, Bool.not_true, Bool.false_eq_true, if_false] at hrc ⊢
        by_cases h4 : isCtrl = true ∧ payload.len > 125
        · rw [if_pos h4] at hrc
          simp [Err.inval, Err.wsWrite, Err.nomem] at hrc
        rw [if_neg h4] at hrc ⊢
        by_cases h5 : opcode = Opcode.close ∧ payload.len ≥ 2 ∧
            !closeCodeValid (bigEndian ((payload.toOption.getD []).take 2))
        · rw [if_pos h5] at hrc
          simp [Err.inval, Err.wsWrite, Err.nomem] at hrc
        rw [if_neg h5] at hrc ⊢
        generalize hdr ++ _ = data at hrc ⊢
        rw [sent_eq]
        rw [streamWrite_eq _ _ _ _ (by simpa [emit] using hstream)] at hrc ⊢
        generalize env.write (c₁.emit (.alloc true)).log = res at hrc ⊢
        dsimp only at hrc ⊢
        have hres : res ≠ .ok := by
          rintro rfl
          simp [WriteRes.ret, Err.success, Err.wsWrite, Err.nomem] at hrc
        refine Faulty.mono ?_ (settle_grows hn res hd₁)
        rw [written, emit, hlog]
        exact Faulty.of_append hle (by simpa [Event.fault] using hres)
      · rw [Bool.not_eq_true] at h3
        simp only [h3, Bool.not_false, if_true]
        have hfault : Faulty n (c.log ++ [] ++ [.alloc false]) := Faulty.of_append hle rfl
        rwa [List.append_nil, ← hlog] at hfault

omit hn in
-- A PONG is not refused for its length.
theorem pong_rc {payload : Bytes} {c : Conn σ δ} (hlen : payload.length ≤ 125)
    (hs : c.state = .opened ∨ c.state = .closing) :
    (sendFrame env nt Opcode.pong (.bytes payload) c).1 = 0 ∨
      (sendFrame env nt Opcode.pong (.bytes payload) c).1 = Err.wsWrite ∨
      (sendFrame env nt Opcode.pong (.bytes payload) c).1 = Err.nomem := by
  unfold sendFrame sendFrameRaw
  extract_lets isCtrl seed c₁ key
  have hctrl : isCtrl = true := rfl
  rw [if_neg (by simp [hctrl]), if_neg (by rcases hs with hs | hs <;> simp [hs])]
  have hheader : ∃ hdr, buildHeader true false Opcode.pong key payload.length = some hdr :=
    ⟨_, if_neg (by decide)⟩
  obtain ⟨hdr, hheader⟩ := hheader
  have hlen' : (Arg.bytes payload).len = payload.length := rfl
  simp only [hlen', hheader]
  generalize hdr ++ _ = data
  clear_value c₁
  split_ifs with h₁ h₂ h₃ h₄ h₅
  · exact .inr (.inr rfl)
  · omega
  · exact absurd h₃.1 (by decide)
  · exact .inl rfl
  · exact .inr (.inr rfl)
  · exact .inr (.inl rfl)

theorem pong_fault {n : Nat} {payload : Bytes} {c : Conn σ δ} (hd : c.destroyed = false)
    (hj : Justified n c) (hc : c.state ≠ .closed) (hlen : payload.length ≤ 125)
    (hrc : (sendFrame env nt Opcode.pong (.bytes payload) c).1 ≠ 0) :
    Faulty n (sendFrame env nt Opcode.pong (.bytes payload) c).2.log := by
  have hstate : c.state = .opened ∨ c.state = .closing := by
    rcases hj.state with hs | hs | hs
    · exact .inl hs
    · exact .inr hs
    · exact absurd hs hc
  exact sendFrameRaw_fault hn Opcode.pong (.bytes payload) false hd (hj.stream.resolve_right hc)
    hj.le ((pong_rc hlen hstate).resolve_left hrc)

-- A write error is fatal, but it is a fault.
theorem failWrite_calm {r : Int × Conn σ δ} {c : Conn σ δ} (hc : Calm c r.2)
    (hf : r.1 = Err.wsWrite → ∀ n, Justified n c → c.state ≠ .closed → Faulty n r.2.log) :
    Calm c (failWrite env nt r).2 := by
  unfold failWrite
  split
  · rename_i hrc
    have hend : Mild r.2 (fatal env nt r.1 r.2) :=
      (fatal_ended hn r.1 hc.destroyed).aside.toMild
    rw [hrc] at hend
    have hmild := hc.toMild.trans hend
    by_cases hcl : c.state = .closed
    · exact .of_closed hmild hcl
    · exact ⟨hmild, fun n hj => hj.of_fault hmild ((hf hrc n hj hcl).mono hend.log)⟩
  · exact hc

theorem sendFrame_failWrite_calm (opcode : Nat) (payload : Arg) (rsv1 : Bool) {c c₁ : Conn σ δ}
    (hc : Calm c c₁) :
    Calm c (failWrite env nt (sendFrameRaw env nt opcode payload rsv1 c₁)).2 := by
  refine failWrite_calm hn (hc.trans (sendFrameRaw_calm hn opcode payload rsv1 hc.destroyed)) ?_
  intro hrc n hj hcl
  have hj₁ := hc.keeps n hj
  rcases hj₁.stream with hs | hs
  · exact sendFrameRaw_fault hn opcode payload rsv1 hc.destroyed hs hj₁.le (.inl hrc)
  · exact (hj₁.closed hs).mono (sendFrameRaw_calm hn opcode payload rsv1 hc.destroyed).log

theorem sendMessage_calm (opcode : Nat) (payload : Arg) {c : Conn σ δ}
    (hd : c.destroyed = false) :
    Calm c (failWrite env nt (sendMessage env nt opcode payload c)).2 := by
  have hraw : Calm c (failWrite env nt (sendFrame env nt opcode payload c)).2 :=
    sendFrame_failWrite_calm hn opcode payload false (Calm.refl hd)
  unfold sendMessage
  cases hdf : c.deflate with
  | none => exact hraw
  | some df =>
      dsimp only
      split
      · exact hraw
      · have halloc : Calm c (c.emit (.alloc (env.alloc c.log))) := emit_calm hd _
        have hfail : ∀ rc c', rc ≠ Err.wsWrite → Calm c c' → Calm c (failWrite env nt (rc, c')).2 :=
          fun rc c' hrc h => failWrite_calm hn h fun h => absurd h hrc
        split
        · exact hfail _ _ (by decide) halloc
        · have hc : ∀ d, Calm c { c.emit (.alloc (env.alloc c.log)) with deflate := d } := fun d =>
            halloc.trans (.same hd rfl rfl rfl rfl)
          split
          · exact hfail _ _ (by decide) (hc _)
          · exact sendFrame_failWrite_calm hn opcode _ true (hc _)

theorem shutdown_calm (code : Nat) (reason : Option Bytes) {c : Conn σ δ}
    (hd : c.destroyed = false) : Calm c (shutdown env nt code reason c).2 := by
  have hmild : Mild c (shutdown env nt code reason c).2 :=
    (shutdown_aside hn code reason hd).toMild
  unfold shutdown at hmild ⊢
  split
  · exact .refl hd
  · rename_i ho
    rw [if_neg ho] at hmild
    dsimp only at hmild ⊢
    generalize Arg.bytes (beCode code ++ (cString (reason.getD [])).take 123) = payload at hmild ⊢
    by_cases hrc : (sendFrame env nt Opcode.close payload c).1 = Err.success ∧
        !(sendFrame env nt Opcode.close payload c).2.gone
    · rw [if_pos hrc, hrc.1] at hmild ⊢
      exact .leave hmild rfl
    · rw [if_neg hrc]
      exact sendFrame_failWrite_calm hn Opcode.close payload false (.refl hd)

theorem sendText_calm (data : Arg) {c : Conn σ δ} (hd : c.destroyed = false) :
    Calm c (sendText env nt data c).2 := by
  unfold sendText
  split
  · exact .refl hd
  · exact sendMessage_calm hn Opcode.text _ hd
  · split
    · exact .refl hd
    · exact sendMessage_calm hn Opcode.text _ hd

theorem sendBinary_calm (data : Arg) {c : Conn σ δ} (hd : c.destroyed = false) :
    Calm c (sendBinary env nt data c).2 := by
  unfold sendBinary
  split
  · exact .refl hd
  · exact sendMessage_calm hn Opcode.binary _ hd

theorem ping_calm (payload : Arg) {c : Conn σ δ} (hd : c.destroyed = false) :
    Calm c (ping env nt payload c).2 := by
  unfold ping
  split
  · exact .refl hd
  · exact sendFrame_failWrite_calm hn Opcode.ping payload false (.refl hd)

theorem call_calm (a : Api) (ha : a.gentle = true) {c : Conn σ δ} (hd : c.destroyed = false) :
    Calm c (call env nt a c) := by
  have hret : ∀ c' rc, Calm c c' → Calm c (c'.emit (.returned rc)) := fun c' rc h =>
    h.trans (emit_calm h.destroyed _)
  unfold call
  cases a with
  | sendText data => exact hret _ _ (sendText_calm hn data hd)
  | sendBinary data => exact hret _ _ (sendBinary_calm hn data hd)
  | ping payload => exact hret _ _ (ping_calm hn payload hd)
  | shutdown code reason => exact hret _ _ (shutdown_calm hn code reason hd)
  | close => cases ha
  | destroy => cases ha

theorem calls_calm (script : List Api) (hs : ∀ a ∈ script, a.gentle = true) {c : Conn σ δ}
    (hd : c.destroyed = false) : Calm c (calls env nt script c) := by
  induction script generalizing c with
  | nil => exact .refl hd
  | cons a rest ih =>
      have h₁ : Calm c (call env nt a c) := call_calm hn a (hs a (List.mem_cons_self ..)) hd
      exact h₁.trans (ih (fun b hb => hs b (List.mem_cons_of_mem _ hb)) h₁.destroyed)

end

-- ---- callbacks ----

section

variable {env : Env σ δ} (hg : env.Gentle)

include hg

theorem callback_calm {cb : Callback} (hcb : cb.Gentle) (e : Event) {c : Conn σ δ}
    (hd : c.destroyed = false) : Calm c (callback env cb e c) := by
  unfold callback
  cases hc : cb with
  | none => exact .refl hd
  | some script =>
      have h₁ : Calm c (c.emit e) := emit_calm hd e
      exact h₁.trans (calls_calm (fun n _ hd _ => notify_aside hg n hd) _ (hcb script hc _)
        h₁.destroyed)

theorem message_calm (site : Site) (data : Bytes) (isBin fin : Bool) (total : Nat) {c : Conn σ δ}
    (hd : c.destroyed = false) : Calm c (message env site data isBin fin total c) := by
  unfold message
  cases hc : env.onMessage with
  | none => exact emit_calm hd _
  | some script =>
      have h₁ : Calm c (callback env (some script) (.onMessage site data isBin fin total) c) :=
        callback_calm hg (hc ▸ hg.onMessage) _ hd
      exact h₁.trans (emit_calm h₁.destroyed _)

end

end Conn

end Sevent.Ws
