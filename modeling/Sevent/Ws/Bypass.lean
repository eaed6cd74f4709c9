import Sevent.Ws.Steps

-- No frame is served before the handshake.
namespace Sevent.Ws

open Sevent.Stream (WriteRes)

variable {σ δ : Type}

-- Callbacks and frames that only an open connection owes.
def Event.served : Event → Bool
  | .onMessage _ _ _ _ _ => true
  | .onPong _ => true
  | .frameOut opcode _ _ => opcode == Opcode.pong || opcode == Opcode.close
  | _ => false

-- The 101 response was written and then the connection moved to OPEN.
def Established (log : List Event) : Prop :=
  ∃ data res since, Trace.After (.upgradeOut data res) log since ∧ res.ret = 0 ∧
    Event.state .opened ∈ since

def NoBypass (log : List Event) : Prop :=
  Trace.AtEach (fun past e => e.served = true → Established past) log

theorem Established.append {log : List Event} (h : Established log) (l : List Event) :
    Established (log ++ l) := by
  obtain ⟨data, res, since, ⟨past, rfl⟩, hret, ho⟩ := h
  exact ⟨data, res, since ++ l, ⟨past, by simp⟩, hret, List.mem_append_left _ ho⟩

theorem Established.opened {log : List Event} (h : Established log) : Opened log := by
  obtain ⟨data, res, since, ⟨past, rfl⟩, -, ho⟩ := h
  exact List.mem_append_right _ (List.mem_cons_of_mem _ ho)

theorem established_opened {log : List Event} {data : Bytes} {res : WriteRes} (l : List Event)
    (hmem : Event.upgradeOut data res ∈ log) (hret : res.ret = 0) :
    Established (log ++ .state .opened :: l) := by
  obtain ⟨past, since, rfl⟩ := List.append_of_mem hmem
  exact ⟨data, res, since ++ .state .opened :: l, ⟨past, by simp⟩, hret, by simp⟩

namespace Conn

variable {env : Env σ δ}

-- What the server's log says, as long as no frame has been read too early.
def Ordered (c : Conn σ δ) : Prop :=
  (Opened c.log → Established c.log) ∧
    Trace.AtEach (fun past e => e.served = true → Established past ∨ Early past) c.log

theorem Act.ordered (hserver : env.isClient = false) {c c' : Conn σ δ} (hw : Wf env c)
    (ha : Act env c c') (h : Ordered c) : Ordered c' := by
  have hgrown := ha.grown hw
  refine ⟨?_, hgrown.atEach h.2 ?_⟩
  · obtain ⟨l, hl, hlogged⟩ := hgrown
    intro hopened
    rw [hl] at hopened ⊢
    rcases (opened_append c.log l).mp hopened with ho | ho
    · exact (h.1 ho).append l
    · obtain ⟨past, future, rfl⟩ := List.append_of_mem ho
      have hreason : Logged env c (c.log ++ past) (.state .opened) :=
        hlogged past _ future rfl
      generalize hp : c.log ++ past = before at hreason
      generalize he : Event.state .opened = e at hreason
      cases hreason with
      | opened hopen =>
          obtain ⟨data, res, hmem, hret⟩ := hopen.server hserver
          rw [← List.append_assoc, hp]
          exact established_opened future hmem hret
      | routine hr =>
          subst he
          cases hr
      | deliver hd hr =>
          subst he
          cases hd
      | notice n hg => cases n <;> cases he
      | _ => cases he
  · rintro past e - hreason hs
    have hentered : Entered c.log → Established c.log ∨ Early c.log := fun he => he.imp h.1 id
    cases hreason with
    | routine hr => cases e <;> simp_all [Event.routine, Event.served, Event.plain]
    | frame opcode data res ho =>
        rcases ho with ho | ⟨-, hping | he⟩
        · exact .inl (h.1 (hw.opened ho))
        · subst hping
          cases hs
        · exact hentered he
    | deliver hd hr => exact hentered hr.1
    | notice n hg => cases n <;> cases hs
    | _ => cases hs

-- For every server, every entry and every sequence of inputs: callbacks and frames of an open
-- connection only after the handshake, provided that no push is read as frames before it.
theorem no_handshake_bypass (env : Env σ δ) (hserver : env.isClient = false) (c : Conn σ δ)
    (hentry : Entry env c) (inputs : List Input) (ha : Awaited env c inputs) :
    NoBypass (run env c inputs).log := by
  obtain ⟨c₀, hw₀, hlog, -, hacts⟩ := hentry.acts
  have h₀ : Ordered c₀ := by
    rw [Ordered, hlog]
    exact ⟨fun h => (by cases h), Trace.atEach_nil _⟩
  have hact : ∀ c c' : Conn σ δ, Wf env c → Act env c c' → Ordered c → Ordered c' :=
    fun _ _ hw ha h => Act.ordered hserver hw ha h
  have hframe : ∀ c : Conn σ δ, Wf env c → Ordered c → Ordered (c.emit .frameData) := by
    rintro c - ⟨ho, hlog⟩
    refine ⟨fun h => ?_, hlog.append _ ?_⟩
    · exact (ho (by simpa [emit] using h)).append _
    · simp [Event.served]
  have hc := Acts.keeps hact hw₀ hacts h₀
  obtain ⟨hw, hearly⟩ := hentry.not_early
  have hnot := run_not_early inputs hw hearly ha
  refine (run_keeps hact hframe inputs hw hc).2.2.imp fun past e hp h hs => ?_
  exact (h hs).resolve_right fun he => hnot (Trace.Somewhere.mono ((List.prefix_append _ _).trans hp) he)

-- A handshake and a message of one byte.
theorem no_handshake_bypass_message :
    Awaited plainServer (start [] 0 [] 1)
      [.streamOpened, .data sampleRequest, .data [0x82, 0x81, 0, 0, 0, 0, 0x41]] ∧
    NoBypass (run plainServer (start [] 0 [] 1)
      [.streamOpened, .data sampleRequest, .data [0x82, 0x81, 0, 0, 0, 0, 0x41]]).log := by
  have hawaited : Awaited plainServer (start [] 0 [] 1)
      [.streamOpened, .data sampleRequest, .data [0x82, 0x81, 0, 0, 0, 0, 0x41]] := by
    set_option maxRecDepth 20000 in
    decide
  exact ⟨hawaited, no_handshake_bypass plainServer rfl _ (.start [] 0 [] 1) _ hawaited⟩

-- Bytes that are no request and hold a frame: they get a 400 and, with the next byte, on_message.
def refusedPush : List Input :=
  [.streamOpened, .data ([0x82, 0x8A, 0, 0, 0, 0] ++ ascii "\r\n\r\nAAAAAA"), .data [0x41]]

theorem refused_push_delivers : ¬ NoBypass (run plainServer (start [] 0 [] 1) refusedPush).log := by
  intro h
  have hserved := (Trace.atEach_iff_get _ _).mp h ⟨7, by decide⟩ (by decide)
  have hclosed : Event.state .opened ∉
      (run plainServer (start [] 0 [] 1) refusedPush).log.take 7 := by decide
  exact hclosed hserved.opened

end Conn

end Sevent.Ws
