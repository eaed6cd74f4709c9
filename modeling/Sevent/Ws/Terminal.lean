import Sevent.Ws.Steps

-- The end of a connection: one notification, and CLOSED for good.
namespace Sevent.Ws

variable {σ δ : Type}

-- What may follow what. `Terminated` holds after a notification and after the user's close.
def OrderlyEvent (past : List Event) : Event → Prop
  | .onClose _ _ => ¬ Terminated past
  | .onError _ => ¬ Terminated past
  | .state s => Event.state .closed ∈ past → s = .closed
  | .timerRegister _ _ => Event.state .closed ∉ past
  | _ => True

instance decidableOrderlyEvent (past : List Event) (e : Event) : Decidable (OrderlyEvent past e) := by
  cases e <;> unfold OrderlyEvent <;> infer_instance

-- on_close and on_error at most once and not after the user's close; CLOSED is final; no timer
-- after it.
def OrderlyEnd (log : List Event) : Prop := Trace.AtEach OrderlyEvent log

instance decidableOrderlyEnd (log : List Event) : Decidable (OrderlyEnd log) :=
  inferInstanceAs (Decidable (Trace.AtEach _ log))

theorem OrderlyEvent.of_routine {e : Event} (past : List Event) (he : e.routine = true) :
    OrderlyEvent past e := by
  cases e with
  | state s => cases s <;> simp_all [OrderlyEvent, Event.routine, Event.plain]
  | _ => simp_all [OrderlyEvent, Event.routine, Event.plain]

theorem OrderlyEvent.of_delivery {e : Event} (past : List Event) (he : e.delivery = true) :
    OrderlyEvent past e := by
  cases e <;> simp_all [OrderlyEvent, Event.delivery]

theorem shutEvents_not_terminal (c : Conn σ δ) :
    ∀ e ∈ Conn.shutEvents c, e.terminal = false := by
  intro e he
  simp only [Conn.shutEvents, List.mem_cons, List.mem_append] at he
  rcases he with (rfl | he) | rfl | he
  · rfl
  · split at he
    · rw [List.mem_singleton.mp he]
      rfl
    · cases he
  · rfl
  · cases he

-- The three ways in which the source gets it wrong, and the end of a handshake that it refuses.
def Disorder (log : List Event) : Prop :=
  FatalTorn log ∨ OpenTorn log ∨ OpenClosed log ∨ Refused log

theorem Disorder.mono {log log' : List Event} (hp : log <+: log') (h : Disorder log) :
    Disorder log' :=
  h.imp (Trace.Somewhere.mono hp)
    (.imp (OpenTorn.mono hp) (.imp (Trace.Somewhere.mono hp) (Refused.mono hp)))

namespace Conn

variable {env : Env σ δ}

def Orderly (c : Conn σ δ) : Prop :=
  Trace.AtEach (fun past e => OrderlyEvent past e ∨ Disorder (past ++ [e])) c.log

theorem Act.orderly {c c' : Conn σ δ} (hw : Wf env c) (ha : Act env c c') (h : Orderly c) :
    Orderly c' := by
  refine (ha.grown hw).atEach h ?_
  intro past e hp hreason
  by_cases hdis : Disorder (past ++ [e])
  · exact .inr hdis
  left
  have hpast : Disorder past → False := fun h => hdis (h.mono (List.prefix_append _ _))
  cases hreason with
  | routine hr => exact OrderlyEvent.of_routine past hr
  | deliver hd hr => exact OrderlyEvent.of_delivery _ hd
  | frame opcode data res ho => trivial
  | notice n hg =>
      have hlog : Disorder c.log → False := fun h => hpast (h.mono (List.prefix_append _ _))
      have hfresh : ¬ Terminated (c.log ++ shutEvents c) := by
        rw [terminated_append]
        rintro (ht | ⟨e, he, ht⟩)
        · rcases hw.terminated ht with hgone | hr | ht
          · rcases hg with hg | hg
            · cases hg.symm.trans hgone
            · exact hlog (.inl hg)
          · exact hlog (.inr (.inr (.inr hr)))
          · exact hlog (.inr (.inl ht))
        · cases (shutEvents_not_terminal c e he).symm.trans ht
      cases n with
      | close code reason => exact hfresh
      | error err => exact hfresh
  | refusedError err hr => exact (hpast (.inr (.inr (.inr hr)))).elim
  | leave ho =>
      intro hc
      rcases hw.stays hc with hs | hr | ht
      · cases ho.symm.trans hs
      · exact (hpast (.inr (.inr (.inr hr)))).elim
      · exact (hpast (.inr (.inl ht))).elim
  | refused => exact (hpast (.inr (.inr (.inr (by simp [Refused]))))).elim
  | opened ho =>
      intro hc
      refine (hpast (.inr (.inl ?_))).elim
      exact ho.fresh.elim (fun hf => (hw.fresh_clean hf).2.2 hc) id
  | onOpen ho => trivial
  | timer ms ok hg =>
      intro hc
      rcases hg with hg | hg
      · rcases hw.stays hc with hs | hr | ht
        · simp [gone, hs] at hg
        · exact hpast (.inr (.inr (.inr hr)))
        · exact hpast (.inr (.inl ht))
      · exact hpast (.inr (.inr (.inl hg)))
  | handshake hf => exact fun hc => (hpast (.inr (.inl ((hw.fresh_clean hf).2.2 hc)))).elim
  | connecting hf =>
      intro hc
      have hc : Event.state .closed ∈ c.log := by simpa using hc
      exact (hpast (.inr (.inl (((hw.fresh_clean hf).2.2 hc).mono (List.prefix_append _ _))))).elim

-- In every run that has reached OPEN, unless the CLOSE frame of ws_fatal or the 101 response tears
-- the stream down, or on_open comes back with a connection that a failed write has closed.
theorem orderly_end (env : Env σ δ) (c : Conn σ δ) (hentry : Entry env c) (inputs : List Input)
    (hopened : Opened (run env c inputs).log) (hfatal : ¬ FatalTorn (run env c inputs).log)
    (htorn : ¬ OpenTorn (run env c inputs).log) (hclosed : ¬ OpenClosed (run env c inputs).log) :
    OrderlyEnd (run env c inputs).log := by
  obtain ⟨c₀, hw₀, hlog, -, hacts⟩ := hentry.acts
  have h₀ : Orderly c₀ := by
    rw [Orderly, hlog]
    exact Trace.atEach_nil _
  have hact : ∀ c c' : Conn σ δ, Wf env c → Act env c c' → Orderly c → Orderly c' :=
    fun _ _ hw ha h => Act.orderly hw ha h
  have hframe : ∀ c : Conn σ δ, Wf env c → Orderly c → Orderly (c.emit .frameData) :=
    fun c _ h => Trace.AtEach.append h _ (by simp [OrderlyEvent])
  have hc := Acts.keeps hact hw₀ hacts h₀
  obtain ⟨hw, h⟩ := run_keeps hact hframe inputs (Acts.wf hacts hw₀) hc
  have hrefused : ¬ Refused (run env c inputs).log := by
    intro hr
    rcases hw.refused hr with ⟨hn, -⟩ | ht
    · exact hn hopened
    · exact htorn ht
  refine h.imp fun past e hp h => h.resolve_right fun hdis => ?_
  rcases hdis.mono hp with h | h | h | h
  · exact hfatal h
  · exact htorn h
  · exact hclosed h
  · exact hrefused h

-- A frame without a mask: ws_fatal sends its CLOSE frame and reports the error once.
def badFrame : List Input :=
  [.streamOpened, .data sampleRequest, .data [0x82, 0x01, 0x41]]

theorem orderly_end_protocol :
    Terminated (run plainServer (start [] 0 [] 1) badFrame).log ∧
      OrderlyEnd (run plainServer (start [] 0 [] 1) badFrame).log := by
  obtain ⟨hterm, hopened, hfatal, htorn, hclosed⟩ :
      Terminated (run plainServer (start [] 0 [] 1) badFrame).log ∧
      Opened (run plainServer (start [] 0 [] 1) badFrame).log ∧
      ¬ FatalTorn (run plainServer (start [] 0 [] 1) badFrame).log ∧
      ¬ OpenTorn (run plainServer (start [] 0 [] 1) badFrame).log ∧
      ¬ OpenClosed (run plainServer (start [] 0 [] 1) badFrame).log := by
    rw [badFrame, run_openServer, openServer_eq]
    decide +kernel
  exact ⟨hterm, orderly_end plainServer _ (.start [] 0 [] 1) _ hopened hfatal htorn hclosed⟩

-- Writes fail from OPEN on.
def failingServer : Env Unit Unit :=
  { plainServer with
    write := fun log => if Event.state .opened ∈ log then .failed Err.write else .ok }

-- The failing CLOSE frame calls on_close, and ws_fatal goes on to on_error.
theorem fatal_notifies_twice : ¬ OrderlyEnd (run failingServer (start [] 0 [] 1) badFrame).log := by
  decide +kernel

end Conn

end Sevent.Ws
