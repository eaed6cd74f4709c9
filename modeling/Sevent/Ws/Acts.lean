import Sevent.Ws.Moves
import Sevent.Ws.Session

-- Everything that a connection does, as runs of guarded acts: the moves of its user, frames that
-- are delivered, and the steps of the handshake.
namespace Sevent.Ws

open Sevent.Stream (WriteRes)

variable {σ δ : Type}

-- ---- what a log says ----

-- The calls of on_message after which the source goes on without looking at the state.
def Site.resumes : Site → Bool → Bool
  | .fragAppend, _ => true
  | .fragFlushTail, _ => true
  | .inflateChunk, _ => true
  | .inflateEnd, fin => !fin
  | .inflateOneshot, fin => !fin
  | _, _ => false

def Event.resumed : Event → Bool
  | .messageReturned site fin => site.resumes fin
  | _ => false

-- Such a call has returned on a connection that was over.
def Interrupted : List Event → Prop :=
  Trace.Somewhere fun past e => e.resumed = true ∧ Terminated past

-- The 101 response has torn the stream down and was reported as written.
def Event.tornUpgrade : Event → Bool
  | .upgradeOut _ (.torn accepted) => accepted
  | _ => false

def OpenTorn (log : List Event) : Prop := ∃ e ∈ log, e.tornUpgrade = true

-- on_open has come back with the connection CLOSED, but not by its user.
def OpenClosed : List Event → Prop :=
  Trace.Somewhere fun past e =>
    e = .openReturned ∧ Event.state .closed ∈ past ∧ Event.closeCall ∉ past

-- ws_server_handshake_fail has run.
def Refused (log : List Event) : Prop := Event.streamShutdown ∈ log

def Excused (log : List Event) : Prop := Interrupted log ∨ OpenTorn log ∨ Early log

-- When a message may be delivered.
def Ready (log : List Event) : Prop := Entered log ∧ (Terminated log → Excused log)

instance decidableInterrupted (log : List Event) : Decidable (Interrupted log) :=
  inferInstanceAs (Decidable (Trace.Somewhere _ log))

instance decidableOpenTorn (log : List Event) : Decidable (OpenTorn log) :=
  inferInstanceAs (Decidable (∃ e ∈ log, e.tornUpgrade = true))

instance decidableOpenClosed (log : List Event) : Decidable (OpenClosed log) :=
  inferInstanceAs (Decidable (Trace.Somewhere _ log))

section

variable {log log' : List Event} (h : log <+: log')

include h

theorem OpenTorn.mono (ho : OpenTorn log) : OpenTorn log' := by
  obtain ⟨e, he, ht⟩ := ho
  exact ⟨e, h.subset he, ht⟩

theorem Refused.mono (hr : Refused log) : Refused log' := h.subset hr

theorem Excused.mono (he : Excused log) : Excused log' :=
  he.imp (Trace.Somewhere.mono h) (.imp (OpenTorn.mono h) (Trace.Somewhere.mono h))

end

@[simp] theorem opened_append (log l : List Event) :
    Opened (log ++ l) ↔ Opened log ∨ Event.state .opened ∈ l :=
  List.mem_append

@[simp] theorem refused_append (log l : List Event) :
    Refused (log ++ l) ↔ Refused log ∨ Event.streamShutdown ∈ l :=
  List.mem_append

theorem exists_mem_append (p : Event → Prop) (log l : List Event) :
    (∃ e ∈ log ++ l, p e) ↔ (∃ e ∈ log, p e) ∨ ∃ e ∈ l, p e := by
  simp only [List.mem_append, or_and_right, exists_or]

@[simp] theorem terminated_append (log l : List Event) :
    Terminated (log ++ l) ↔ Terminated log ∨ ∃ e ∈ l, e.terminal = true :=
  exists_mem_append _ log l

@[simp] theorem openTorn_append (log l : List Event) :
    OpenTorn (log ++ l) ↔ OpenTorn log ∨ ∃ e ∈ l, e.tornUpgrade = true :=
  exists_mem_append _ log l

theorem Ready.append {log : List Event} (hr : Ready log) (l : List Event)
    (hl : ∀ e ∈ l, e.terminal = false) : Ready (log ++ l) := by
  refine ⟨hr.1.mono (List.prefix_append _ _), fun ht => ?_⟩
  rcases (terminated_append log l).mp ht with ht | ⟨e, he, ht⟩
  · exact (hr.2 ht).mono (List.prefix_append _ _)
  · cases (hl e he).symm.trans ht

-- ---- kinds of events ----

def Event.delivery : Event → Bool
  | .onMessage _ _ _ _ _ => true
  | .onPong _ => true
  | _ => false

-- Events that the invariant does not mention.
def Event.inert : Event → Bool
  | .state .opened => false
  | .state .closed => false
  | .streamShutdown => false
  | e => !e.terminal

theorem Event.inert_spec {e : Event} (he : e.inert = true) :
    e ≠ .state .opened ∧ e ≠ .state .closed ∧ e ≠ .streamShutdown ∧ e.terminal = false := by
  cases e with
  | state s => cases s <;> simp_all [Event.inert, Event.terminal]
  | _ => simp_all [Event.inert, Event.terminal]

theorem Event.inert_of_plain {e : Event} (he : e.plain = true) : e.inert = true := by
  cases e <;> simp_all [Event.plain, Event.inert, Event.terminal]

-- Events that need no reason.
def Event.routine : Event → Bool
  | .timerUnregister => true
  | .streamClose => true
  | .streamOpen _ _ _ => true
  | .streamShutdown => true
  | .closeCall => true
  | .refusalOut _ _ => true
  | .upgradeOut _ _ => true
  | .requestOut _ _ _ => true
  | .response _ => true
  | .state .closed => true
  | e => e.plain

theorem Event.routine_of_plain {e : Event} (he : e.plain = true) : e.routine = true := by
  cases e <;> simp_all [Event.plain, Event.routine]

namespace Conn

-- ---- the acts ----

-- Everything but the receiving side and the configuration.
structure SameTx (c c' : Conn σ δ) : Prop where
  state : c'.state = c.state
  destroyed : c'.destroyed = c.destroyed
  stream : c'.stream = c.stream
  pingTimer : c'.pingTimer = c.pingTimer
  key : c'.secWsKey = c.secWsKey
  log : c'.log = c.log
  -- a deflate context stays
  deflate : c.deflate.isSome = true → c'.deflate.isSome = true

-- Alive and not yet OPEN.
def Fresh (c : Conn σ δ) : Prop :=
  c.gone = false ∧ (c.state = .connecting ∨ c.state = .handshake)

-- The checks of the client that lead to OPEN.
def Accepts (env : Env σ δ) (key buf : Bytes) : Prop :=
  0 < (parseResponse buf).1 ∧ (parseResponse buf).2.redirects = false ∧
    verifyAccept key (parseResponse buf).2.accept = true ∧
    (env.onHttpResponse.isSome = true → (parseResponse buf).2.statusCode = 101)

def Verified (env : Env σ δ) (c : Conn σ δ) : Prop :=
  c.state = .handshake ∧ ∃ buf since, Trace.After (.response buf) c.log since ∧
    (∀ e ∈ since, e.plain = true) ∧ Accepts env c.secWsKey buf

-- What leads to OPEN.
structure Openable (env : Env σ δ) (c : Conn σ δ) : Prop where
  fresh : c.Fresh ∨ OpenTorn c.log
  stream : c.stream ≠ .opening
  client : env.isClient = true → Verified env c
  server : env.isClient = false → ∃ data res, Event.upgradeOut data res ∈ c.log ∧ res.ret = 0

def announce (env : Env σ δ) (c : Conn σ δ) : Conn σ δ :=
  { c with log := c.log ++ if env.onOpen.isSome then [.onOpen] else [] }

inductive Act (env : Env σ δ) : Conn σ δ → Conn σ δ → Prop
  | move {c c' : Conn σ δ} (hm : Move env c c') : Act env c c'
  | quiet {c c' : Conn σ δ} (hs : SameTx c c') (hr : c'.recv.length ≤ env.recvCap)
      (hf : c'.frag.length ≤ env.recvCap) : Act env c c'
  | deliver (c : Conn σ δ) (e : Event) (he : e.delivery = true) (hr : Ready c.log) :
      Act env c (c.emit e)
  | refusal (c : Conn σ δ) (data : Bytes) (res : WriteRes) (hs : c.stream = .opened)
      (hf : c.Fresh) : Act env c (c.written (.refusalOut data res) res)
  | switching (c : Conn σ δ) (data : Bytes) (res : WriteRes) (hs : c.stream = .opened)
      (hf : c.Fresh) : Act env c (c.written (.upgradeOut data res) res)
  | opened (c : Conn σ δ) (ho : Openable env c) : Act env c (announce env (c.setState .opened))
  | timer (c : Conn σ δ) (ms : Nat) (ok : Bool) (hg : c.gone = false ∨ OpenClosed c.log) :
      Act env c { c with pingTimer := ok, log := c.log ++ [.timerRegister ms ok] }
  | refused (c : Conn σ δ) (ho : ¬ Opened c.log) (hs : c.stream ≠ .opening) :
      Act env c ((c.emit .streamShutdown).setState .closing)
  | refusedError (c : Conn σ δ) (err : Int) (hr : Refused c.log) : Act env c (c.emit (.onError err))
  | accepted (c : Conn σ δ) (hs : c.stream = .opening) (hc : env.isClient = false) :
      Act env c ({ c with stream := .opened }.setState .handshake)
  | connected (c : Conn σ δ) (key : Bytes) (hs : c.stream = .opening) :
      Act env c { c with stream := .opened, secWsKey := key }
  | requested (c : Conn σ δ) (raw : Fin 16 → Byte) (data : Bytes) (res : WriteRes)
      (hs : c.stream = .opening) :
      Act env c
        (({ c with stream := .opened, secWsKey := genKey raw }.setState .handshake).written
          (.requestOut (genKey raw) data res) res)
  | response (c : Conn σ δ) (hs : c.state = .handshake) : Act env c (c.emit (.response c.recv))
  | redirected (c : Conn σ δ) (msg : MsgState) (host : Bytes) (port : Nat) (path : Bytes)
      (count : Nat) (ok : Bool) (hg : c.gone = false) (hs : c.state = .handshake) :
      Act env c
        { c with
          state := .connecting, stream := if ok then .opening else .idle
          host := host, port := port, path := path, redirectCount := count
          recv := [], frag := [], msg := msg, streamRemaining := 0, streamFin := false
          log := c.log ++ [.streamClose, .state .connecting, .streamOpen host port ok] }
  | idle (c : Conn σ δ) : Act env c { c with stream := .idle }

abbrev Acts (env : Env σ δ) : Conn σ δ → Conn σ δ → Prop := Relation.ReflTransGen (Act env)

theorem Act.log_grows {env : Env σ δ} {c c' : Conn σ δ} (h : Act env c c') : c.log <+: c'.log := by
  cases h with
  | move hm => exact hm.log_grows
  | quiet hs hr hf => exact hs.log ▸ List.prefix_rfl
  | opened ho =>
      simp only [announce, setState, List.append_assoc]
      exact List.prefix_append _ _
  | refused ho hs =>
      simp only [emit, setState, List.append_assoc]
      exact List.prefix_append _ _
  | requested raw data res hs =>
      simp only [written, setState, List.append_assoc]
      exact List.prefix_append _ _
  | connected key hs => exact List.prefix_rfl
  | idle => exact List.prefix_rfl
  | deliver e he hr => exact List.prefix_append _ _
  | refusal data res hs hf => exact List.prefix_append _ _
  | switching data res hs hf => exact List.prefix_append _ _
  | timer ms ok hg => exact List.prefix_append _ _
  | refusedError err hr => exact List.prefix_append _ _
  | accepted hs hc => exact List.prefix_append _ _
  | response hs => exact List.prefix_append _ _
  | redirected msg host port path count ok hg hs => exact List.prefix_append _ _

theorem Acts.log_grows {env : Env σ δ} {c c' : Conn σ δ} (h : Acts env c c') : c.log <+: c'.log := by
  induction h with
  | refl => exact List.prefix_rfl
  | tail _ ha ih => exact ih.trans ha.log_grows

-- ---- the invariant ----

structure Wf (env : Env σ δ) (c : Conn σ δ) : Prop where
  recv_le : c.recv.length ≤ env.recvCap
  frag_le : c.frag.length ≤ env.recvCap
  opened : c.state = .opened → Opened c.log
  fresh : c.state = .connecting ∨ c.state = .handshake → ¬ Opened c.log
  opening : c.stream = .opening → c.state = .connecting ∧ c.gone = false
  closed : c.state = .closed → Event.state .closed ∈ c.log
  closeCall : Event.closeCall ∈ c.log → c.destroyed = true
  stays : Event.state .closed ∈ c.log → c.state = .closed ∨ Refused c.log ∨ OpenTorn c.log
  terminated : Terminated c.log → c.gone = true ∨ Refused c.log ∨ OpenTorn c.log
  refused : Refused c.log →
    ¬ Opened c.log ∧ (c.state = .closing ∨ c.state = .closed) ∨ OpenTorn c.log

-- A change that the invariant does not notice.
theorem Wf.of_log {env : Env σ δ} {c c' : Conn σ δ} (hw : Wf env c) (events : List Event)
    (hrecv : c'.recv.length ≤ env.recvCap) (hfrag : c'.frag.length ≤ env.recvCap)
    (hstate : c'.state = c.state) (hdestroyed : c'.destroyed = c.destroyed)
    (hstream : c'.stream = .opening → c.stream = .opening) (hlog : c'.log = c.log ++ events)
    (hevents : ∀ e ∈ events, e.inert = true) : Wf env c' := by
  have hgone : c'.gone = c.gone := by simp [gone, hstate, hdestroyed]
  have hopened : Opened c'.log ↔ Opened c.log := by
    rw [hlog, opened_append, or_iff_left]
    exact fun h => (Event.inert_spec (hevents _ h)).1 rfl
  have hrefused : Refused c'.log ↔ Refused c.log := by
    rw [hlog, refused_append, or_iff_left]
    exact fun h => (Event.inert_spec (hevents _ h)).2.2.1 rfl
  have hterm : Terminated c'.log ↔ Terminated c.log := by
    rw [hlog, terminated_append, or_iff_left]
    rintro ⟨e, he, ht⟩
    cases (Event.inert_spec (hevents e he)).2.2.2.symm.trans ht
  have htorn : OpenTorn c.log → OpenTorn c'.log :=
    OpenTorn.mono (hlog ▸ List.prefix_append _ _)
  refine ⟨hrecv, hfrag, ?_, ?_, ?_, ?_, ?_, ?_, ?_, ?_⟩
  · rw [hstate, hopened]
    exact hw.opened
  · rw [hstate, hopened]
    exact hw.fresh
  · rw [hstate, hgone]
    exact fun h => hw.opening (hstream h)
  · rw [hstate, hlog]
    exact fun h => List.mem_append_left _ (hw.closed h)
  · rw [hlog, hdestroyed, List.mem_append]
    rintro (h | h)
    · exact hw.closeCall h
    · cases (Event.inert_spec (hevents _ h)).2.2.2
  · rw [hlog, List.mem_append, ← hlog, hstate, hrefused]
    rintro (h | h)
    · exact (hw.stays h).imp id (.imp id htorn)
    · exact absurd rfl (Event.inert_spec (hevents _ h)).2.1
  · rw [hterm, hgone, hrefused]
    exact fun h => (hw.terminated h).imp id (.imp id htorn)
  · rw [hrefused, hopened, hstate]
    exact fun h => (hw.refused h).imp id htorn

theorem written_opening {c : Conn σ δ} {e : Event} {res : WriteRes}
    (h : (c.written e res).stream = .opening) : c.stream = .opening := by
  simp only [written] at h
  split at h
  · cases h
  · exact h

theorem Move.wf {env : Env σ δ} {c c' : Conn σ δ} (hm : Move env c c') (hw : Wf env c) :
    Wf env c' := by
  have hr : c'.recv.length ≤ env.recvCap := hm.sameRx.recv ▸ hw.recv_le
  have hf : c'.frag.length ≤ env.recvCap := hm.sameRx.frag ▸ hw.frag_le
  have hp := hm.log_grows
  cases hm with
  | note e he =>
      refine hw.of_log [e] hr hf rfl rfl id rfl ?_
      simpa using Event.inert_of_plain he
  | seed seed => exact hw.of_log [] hr hf rfl rfl id (by simp) (by simp)
  | compressor df d hd => exact hw.of_log [] hr hf rfl rfl id (by simp) (by simp)
  | frame opcode data res hs ho =>
      exact hw.of_log [.frameOut opcode data res] hr hf rfl rfl written_opening rfl
        (by simp [Event.inert, Event.terminal])
  | ended n hg =>
      have hs : (notifyNested env n c.shut).state = .closed := by rw [notifyNested_eq, shut_eq]
      have ho : Opened (notifyNested env n c.shut).log ↔ Opened c.log := by
        simp [notifyNested_eq, shut_eq, noticeEvents, shutEvents]
        cases n <;> simp [Notice.event]
      have hd : Refused (notifyNested env n c.shut).log ↔ Refused c.log := by
        simp [notifyNested_eq, shut_eq, noticeEvents, shutEvents]
        cases n <;> simp [Notice.event]
      refine ⟨hr, hf, by simp [hs], by simp [hs], ?_, ?_, ?_, ?_, ?_, ?_⟩
      · simp [notifyNested_eq, shut_eq]
      · simp [notifyNested_eq, shut_eq, shutEvents]
      · simp only [notifyNested_eq, shut_eq, noticeEvents, shutEvents]
        intro h
        refine hw.closeCall ?_
        cases n <;> simpa [Notice.event] using h
      · exact fun _ => .inl hs
      · exact fun _ => .inl (by simp [gone, hs])
      · rw [hd, ho, hs]
        exact fun h => (hw.refused h).imp (fun h => ⟨h.1, .inr rfl⟩) (OpenTorn.mono hp)
  | leave ho =>
      refine ⟨hr, hf, by simp [setState], by simp [setState], ?_, by simp [setState], ?_, ?_, ?_, ?_⟩
      · intro hs
        cases (hw.opening hs).1.symm.trans ho
      · simpa [setState] using hw.closeCall
      · intro h
        have h : Event.state .closed ∈ c.log := by simpa [setState] using h
        rcases hw.stays h with hs | hr | ht
        · cases ho.symm.trans hs
        · exact .inr (.inl (hr.mono hp))
        · exact .inr (.inr (ht.mono hp))
      · simp only [setState, terminated_append, refused_append, openTorn_append]
        rintro (h | h)
        · rcases hw.terminated h with hg | hr | ht
          · left
            simpa [gone, ho] using hg
          · exact .inr (.inl (.inl hr))
          · exact .inr (.inr (.inl ht))
        · simp [Event.terminal] at h
      · simp only [setState, opened_append, refused_append, openTorn_append]
        rintro (h | h)
        · rcases hw.refused h with ⟨-, hs⟩ | ht
          · rw [ho] at hs
            simp at hs
          · exact .inr (.inl ht)
        · simp at h
  | close =>
      have hs : c.close.state = .closed := by rw [close_eq]
      have ho : Opened c.close.log ↔ Opened c.log := by simp [close_eq, closeEvents]
      have hd : Refused c.close.log ↔ Refused c.log := by simp [close_eq, closeEvents]
      refine ⟨hr, hf, by simp [hs], by simp [hs], ?_, ?_, ?_, ?_, ?_, ?_⟩
      · simp [close_eq]
      · simp [close_eq, closeEvents]
      · simp [close_eq]
      · exact fun _ => .inl hs
      · exact fun _ => .inl (by simp [gone, hs])
      · rw [hd, ho, hs]
        exact fun h => (hw.refused h).imp (fun h => ⟨h.1, .inr rfl⟩) (OpenTorn.mono hp)

-- A connection that is Fresh has no past, unless its 101 response was torn.
theorem Wf.fresh_clean {env : Env σ δ} {c : Conn σ δ} (hw : Wf env c) (hf : c.Fresh) :
    (Terminated c.log → OpenTorn c.log) ∧ (Refused c.log → OpenTorn c.log) ∧
      (Event.state .closed ∈ c.log → OpenTorn c.log) := by
  have hrefused : Refused c.log → OpenTorn c.log := by
    intro hr
    rcases hw.refused hr with ⟨-, hs⟩ | ht
    · rcases hf.2 with h | h <;> simp [h] at hs
    · exact ht
  refine ⟨fun ht => ?_, hrefused, fun hc => ?_⟩
  · rcases hw.terminated ht with hg | hr | ht
    · cases hf.1.symm.trans hg
    · exact hrefused hr
    · exact ht
  · rcases hw.stays hc with hs | hr | ht
    · rcases hf.2 with h | h <;> cases h.symm.trans hs
    · exact hrefused hr
    · exact ht

theorem Wf.fresh_of_opening {env : Env σ δ} {c : Conn σ δ} (hw : Wf env c)
    (hs : c.stream = .opening) : c.Fresh :=
  ⟨(hw.opening hs).2, .inl (hw.opening hs).1⟩

-- A step of the handshake: it starts Fresh and stays so.
theorem Wf.of_fresh {env : Env σ δ} {c c' : Conn σ δ} (hw : Wf env c) (hf : c.Fresh)
    (events : List Event) (hrecv : c'.recv.length ≤ env.recvCap)
    (hfrag : c'.frag.length ≤ env.recvCap) (hstate : c'.state = .connecting ∨ c'.state = .handshake)
    (hdestroyed : c'.destroyed = c.destroyed)
    (hstream : c'.stream = .opening → c'.state = .connecting) (hlog : c'.log = c.log ++ events)
    (hevents : ∀ e ∈ events, e.inert = true) : Wf env c' := by
  obtain ⟨hg, hs⟩ := hf
  have hgone : c'.gone = false := by
    simp only [gone, Bool.or_eq_false_iff] at hg ⊢
    refine ⟨hdestroyed ▸ hg.1, ?_⟩
    rcases hstate with h | h <;> simp [h]
  have htorn : OpenTorn c.log → OpenTorn c'.log := OpenTorn.mono (hlog ▸ List.prefix_append _ _)
  have hopened : ¬ Opened c'.log := by
    rw [hlog, opened_append, not_or]
    exact ⟨hw.fresh hs, fun h => (Event.inert_spec (hevents _ h)).1 rfl⟩
  have hclean := hw.fresh_clean ⟨hg, hs⟩
  refine ⟨hrecv, hfrag, fun h => ?_, fun _ => hopened, fun h => ⟨hstream h, hgone⟩, fun h => ?_,
    fun h => ?_, fun h => ?_, fun h => ?_, fun h => ?_⟩
  · rcases hstate with h' | h' <;> cases h'.symm.trans h
  · rcases hstate with h' | h' <;> cases h'.symm.trans h
  · rw [hlog, List.mem_append] at h
    rcases h with h | h
    · exact hdestroyed ▸ hw.closeCall h
    · cases (Event.inert_spec (hevents _ h)).2.2.2
  · rw [hlog, List.mem_append] at h
    rcases h with h | h
    · exact .inr (.inr (htorn (hclean.2.2 h)))
    · exact absurd rfl (Event.inert_spec (hevents _ h)).2.1
  · rw [hlog, terminated_append] at h
    rcases h with h | ⟨e, he, ht⟩
    · exact .inr (.inr (htorn (hclean.1 h)))
    · cases (Event.inert_spec (hevents e he)).2.2.2.symm.trans ht
  · rw [hlog, refused_append] at h
    rcases h with h | h
    · exact .inr (htorn (hclean.2.1 h))
    · exact absurd rfl (Event.inert_spec (hevents _ h)).2.2.1

theorem Act.wf {env : Env σ δ} {c c' : Conn σ δ} (ha : Act env c c') (hw : Wf env c) :
    Wf env c' := by
  cases ha with
  | move hm => exact hm.wf hw
  | quiet hs hr hf =>
      exact hw.of_log [] hr hf hs.state hs.destroyed (fun h => hs.stream ▸ h) (by simp [hs.log])
        (by simp)
  | deliver e he hr =>
      refine hw.of_log [e] hw.recv_le hw.frag_le rfl rfl id rfl ?_
      cases e <;> simp_all [Event.delivery, Event.inert, Event.terminal]
  | refusal data res hs hf =>
      exact hw.of_log [.refusalOut data res] hw.recv_le hw.frag_le rfl rfl written_opening rfl
        (by simp [Event.inert, Event.terminal])
  | switching data res hs hf =>
      exact hw.of_log [.upgradeOut data res] hw.recv_le hw.frag_le rfl rfl written_opening rfl
        (by simp [Event.inert, Event.terminal])
  | opened ho =>
      have hlog : (announce env (c.setState .opened)).log =
          c.log ++ .state .opened :: (if env.onOpen.isSome then [.onOpen] else []) := by
        simp [announce, setState]
      have hprefix : c.log <+: (announce env (c.setState .opened)).log := by
        rw [hlog]
        exact List.prefix_append _ _
      have hterm : Terminated (announce env (c.setState .opened)).log → OpenTorn c.log := by
        rw [hlog, terminated_append]
        rintro (h | ⟨e, he, ht⟩)
        · exact ho.fresh.elim (fun hf => (hw.fresh_clean hf).1 h) id
        · simp only [List.mem_cons] at he
          rcases he with rfl | he
          · cases ht
          · split at he
            · rw [List.mem_singleton.mp he] at ht
              cases ht
            · cases he
      have hrefused : Refused (announce env (c.setState .opened)).log → OpenTorn c.log := by
        rw [hlog, refused_append]
        rintro (h | h)
        · exact ho.fresh.elim (fun hf => (hw.fresh_clean hf).2.1 h) id
        · split at h <;> simp at h
      have hstays : Event.state .closed ∈ (announce env (c.setState .opened)).log → OpenTorn c.log := by
        rw [hlog]
        intro h
        have h : Event.state .closed ∈ c.log := by
          split at h <;> simpa using h
        exact ho.fresh.elim (fun hf => (hw.fresh_clean hf).2.2 h) id
      refine ⟨hw.recv_le, hw.frag_le, fun _ => ?_, ?_, fun h => absurd h ho.stream, ?_, ?_,
        fun h => .inr (.inr ((hstays h).mono hprefix)), fun h => ?_, fun h => ?_⟩
      · rw [hlog]
        simp
      · simp [announce, setState]
      · simp [announce, setState]
      · rw [hlog]
        intro h
        refine hw.closeCall ?_
        split at h <;> simpa using h
      · exact .inr (.inr ((hterm h).mono hprefix))
      · exact .inr ((hrefused h).mono hprefix)
  | timer ms ok hg =>
      exact hw.of_log [.timerRegister ms ok] hw.recv_le hw.frag_le rfl rfl id rfl
        (by simp [Event.inert, Event.terminal])
  | refused ho hs =>
      refine ⟨hw.recv_le, hw.frag_le, by simp [setState], by simp [setState],
        fun h => absurd h hs, by simp [setState], by simpa [setState, emit] using hw.closeCall,
        fun _ => .inr (.inl ?_), fun _ => .inr (.inl ?_), fun _ => .inl ⟨?_, .inl rfl⟩⟩
      · simp [Refused, setState, emit]
      · simp [Refused, setState, emit]
      · simpa [setState, emit] using ho
  | refusedError err hr =>
      refine ⟨hw.recv_le, hw.frag_le, ?_, ?_, hw.opening, ?_, ?_, fun _ => .inr (.inl ?_),
        fun _ => .inr (.inl ?_), fun _ => ?_⟩
      · simpa [emit] using hw.opened
      · simpa [emit] using hw.fresh
      · simpa [emit] using hw.closed
      · simpa [emit] using hw.closeCall
      · exact hr.mono (List.prefix_append _ _)
      · exact hr.mono (List.prefix_append _ _)
      · simpa [emit, Event.tornUpgrade] using hw.refused hr
  | accepted hs hc =>
      exact hw.of_fresh (hw.fresh_of_opening hs) [.state .handshake] hw.recv_le hw.frag_le
        (.inr rfl) rfl (by simp [setState]) rfl (by simp [Event.inert, Event.terminal])
  | connected key hs =>
      exact hw.of_log [] hw.recv_le hw.frag_le rfl rfl (by simp) (by simp) (by simp)
  | requested raw data res hs =>
      refine hw.of_fresh (hw.fresh_of_opening hs) [.state .handshake, .requestOut (genKey raw) data res]
        hw.recv_le hw.frag_le (.inr rfl) rfl ?_ (by simp [written, setState])
        (by simp [Event.inert, Event.terminal])
      intro h
      cases written_opening h
  | response hs =>
      exact hw.of_log [.response c.recv] hw.recv_le hw.frag_le rfl rfl id rfl (by simp [Event.inert, Event.terminal])
  | redirected msg host port path count ok hg hs =>
      exact hw.of_fresh ⟨hg, .inr hs⟩ [.streamClose, .state .connecting, .streamOpen host port ok]
        (Nat.zero_le _) (Nat.zero_le _) (.inl rfl) rfl (fun _ => rfl) rfl (by simp [Event.inert, Event.terminal])
  | idle => exact hw.of_log [] hw.recv_le hw.frag_le rfl rfl (by simp) (by simp) (by simp)

theorem Acts.wf {env : Env σ δ} {c c' : Conn σ δ} (ha : Acts env c c') (hw : Wf env c) :
    Wf env c' := by
  induction ha with
  | refl => exact hw
  | tail _ ha ih => exact ha.wf ih

-- Alive is ready.
theorem Wf.ready {env : Env σ δ} {c : Conn σ δ} (hw : Wf env c) (hg : c.gone = false)
    (he : Entered c.log) : Ready c.log := by
  refine ⟨he, fun ht => ?_⟩
  rcases hw.terminated ht with hg' | hr | ht
  · cases hg.symm.trans hg'
  · rcases hw.refused hr with ⟨hn, -⟩ | ht
    · exact .inr (.inr (he.resolve_left hn))
    · exact .inr (.inl ht)
  · exact .inr (.inl ht)

-- ---- what an act writes into the log ----

-- An event, with what was logged before it and why an act from `c` may log it.
inductive Logged (env : Env σ δ) (c : Conn σ δ) : List Event → Event → Prop
  | routine {past : List Event} {e : Event} (he : e.routine = true) : Logged env c past e
  | frame (opcode : Nat) (data : Bytes) (res : WriteRes) (ho : c.Sends opcode) :
      Logged env c c.log (.frameOut opcode data res)
  | deliver {e : Event} (he : e.delivery = true) (hr : Ready c.log) : Logged env c c.log e
  | notice (n : Notice) (hg : c.gone = false ∨ FatalTorn c.log) :
      Logged env c (c.log ++ shutEvents c) n.event
  | refusedError (err : Int) (hr : Refused c.log) : Logged env c c.log (.onError err)
  | leave (ho : c.state = .opened) : Logged env c c.log (.state .closing)
  | refused : Logged env c (c.log ++ [.streamShutdown]) (.state .closing)
  | opened (ho : Openable env c) : Logged env c c.log (.state .opened)
  | onOpen (ho : Openable env c) : Logged env c (c.log ++ [.state .opened]) .onOpen
  | timer (ms : Nat) (ok : Bool) (hg : c.gone = false ∨ OpenClosed c.log) :
      Logged env c c.log (.timerRegister ms ok)
  | handshake (hf : c.Fresh) : Logged env c c.log (.state .handshake)
  | connecting (hf : c.Fresh) : Logged env c (c.log ++ [.streamClose]) (.state .connecting)

-- A log that has grown by events with a reason.
def Grown (env : Env σ δ) (c c' : Conn σ δ) : Prop :=
  ∃ l, c'.log = c.log ++ l ∧ Trace.AtEach (fun past e => Logged env c (c.log ++ past) e) l

theorem Grown.one {env : Env σ δ} {c c' : Conn σ δ} {e : Event} (hl : c'.log = c.log ++ [e])
    (h : Logged env c c.log e) : Grown env c c' := by
  refine ⟨[e], hl, ?_⟩
  rw [← List.nil_append [e], Trace.atEach_concat, List.append_nil]
  exact ⟨Trace.atEach_nil _, h⟩

theorem Grown.routine {env : Env σ δ} {c c' : Conn σ δ} (l : List Event)
    (hl : c'.log = c.log ++ l) (h : ∀ e ∈ l, e.routine = true) : Grown env c c' := by
  refine ⟨l, hl, ?_⟩
  rintro past e future rfl
  exact .routine (h e (by simp))

-- One event with a reason of its own after some that need none.
theorem Grown.last {env : Env σ δ} {c c' : Conn σ δ} (l : List Event) (e : Event)
    (hl : c'.log = c.log ++ (l ++ [e])) (h : ∀ e ∈ l, e.routine = true)
    (he : Logged env c (c.log ++ l) e) : Grown env c c' := by
  refine ⟨l ++ [e], hl, (Trace.atEach_concat _ _ _).mpr ⟨?_, he⟩⟩
  rintro past e future rfl
  exact .routine (h e (by simp))

theorem shutEvents_routine (c : Conn σ δ) : ∀ e ∈ shutEvents c, e.routine = true := by
  intro e he
  simp only [shutEvents, List.mem_cons, List.mem_append] at he
  rcases he with (rfl | he) | rfl | he
  · rfl
  · split at he
    · rw [List.mem_singleton.mp he]
      rfl
    · cases he
  · rfl
  · cases he

theorem closeEvents_routine (c : Conn σ δ) : ∀ e ∈ closeEvents c, e.routine = true := by
  intro e he
  simp only [closeEvents, List.mem_cons] at he
  rcases he with rfl | rfl | rfl | he
  · rfl
  · rfl
  · rfl
  · split at he
    · rw [List.mem_singleton.mp he]
      rfl
    · cases he

theorem Move.grown {env : Env σ δ} {c c' : Conn σ δ} (hm : Move env c c') : Grown env c c' := by
  cases hm with
  | note e he => exact Grown.one rfl (.routine (Event.routine_of_plain he))
  | seed seed => exact Grown.routine [] (by simp) (by simp)
  | compressor df d hd => exact Grown.routine [] (by simp) (by simp)
  | frame opcode data res hs ho => exact Grown.one rfl (.frame opcode data res ho)
  | ended n hg =>
      rw [notifyNested_eq, shut_eq, noticeEvents]
      split
      · exact Grown.last (shutEvents c) n.event (by simp) (shutEvents_routine c) (.notice n hg)
      · exact Grown.routine (shutEvents c) (by simp) (shutEvents_routine c)
  | leave ho => exact Grown.one rfl (.leave ho)
  | close =>
      rw [close_eq]
      exact Grown.routine (closeEvents c) rfl (closeEvents_routine c)

theorem Act.grown {env : Env σ δ} {c c' : Conn σ δ} (ha : Act env c c') (hw : Wf env c) :
    Grown env c c' := by
  cases ha with
  | move hm => exact hm.grown
  | quiet hs hr hf => exact Grown.routine [] (by simp [hs.log]) (by simp)
  | deliver e he hr => exact Grown.one rfl (.deliver he hr)
  | refusal data res hs hf => exact Grown.one rfl (.routine rfl)
  | switching data res hs hf => exact Grown.one rfl (.routine rfl)
  | opened ho =>
      have hstate : Trace.AtEach (fun past e => Logged env c (c.log ++ past) e) [.state .opened] := by
        rw [← List.nil_append [Event.state .opened], Trace.atEach_concat, List.append_nil]
        exact ⟨Trace.atEach_nil _, .opened ho⟩
      cases hcb : env.onOpen with
      | none => exact ⟨[.state .opened], by simp [announce, setState, hcb], hstate⟩
      | some cb =>
          refine ⟨[.state .opened] ++ [.onOpen], by simp [announce, setState, hcb], ?_⟩
          exact (Trace.atEach_concat _ _ _).mpr ⟨hstate, .onOpen ho⟩
  | timer ms ok hg => exact Grown.one rfl (.timer ms ok hg)
  | refused ho hs =>
      exact Grown.last [.streamShutdown] (.state .closing) (by simp [setState, emit])
        (by simp [Event.routine]) .refused
  | refusedError err hr => exact Grown.one rfl (.refusedError err hr)
  | accepted hs hc => exact Grown.one rfl (.handshake (hw.fresh_of_opening hs))
  | connected key hs => exact Grown.routine [] (by simp) (by simp)
  | requested raw data res hs =>
      refine ⟨[.state .handshake] ++ [.requestOut (genKey raw) data res], by simp [written, setState], ?_⟩
      refine (Trace.atEach_concat _ _ _).mpr ⟨?_, .routine rfl⟩
      rw [← List.nil_append [Event.state .handshake], Trace.atEach_concat, List.append_nil]
      exact ⟨Trace.atEach_nil _, .handshake (hw.fresh_of_opening hs)⟩
  | response hs => exact Grown.one rfl (.routine rfl)
  | redirected msg host port path count ok hg hs =>
      refine ⟨[.streamClose] ++ [.state .connecting] ++ [.streamOpen host port ok], by simp, ?_⟩
      refine (Trace.atEach_concat _ _ _).mpr ⟨?_, .routine rfl⟩
      refine (Trace.atEach_concat _ _ _).mpr ⟨?_, .connecting ⟨hg, .inr hs⟩⟩
      rw [← List.nil_append [Event.streamClose], Trace.atEach_concat]
      exact ⟨Trace.atEach_nil _, .routine rfl⟩
  | idle => exact Grown.routine [] (by simp) (by simp)

-- A property of the log that the reasons give.
theorem Grown.atEach {env : Env σ δ} {c c' : Conn σ δ} {P : List Event → Event → Prop}
    (hg : Grown env c c') (h : Trace.AtEach P c.log)
    (hP : ∀ past e, past ++ [e] <+: c'.log → Logged env c past e → P past e) :
    Trace.AtEach P c'.log := by
  obtain ⟨l, hl, hlogged⟩ := hg
  rw [hl] at hP ⊢
  refine (Trace.atEach_append P c.log l).mpr ⟨h, ?_⟩
  rintro past e future rfl
  exact hP _ e ⟨future, by simp⟩ (hlogged past e future rfl)

end Conn

end Sevent.Ws
