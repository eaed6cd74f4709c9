import Mathlib.Data.Bool.AllAny
import Sevent.Http.Head
import Sevent.Http.Pipeline
import Sevent.Http.Quiet
import Sevent.Http.Visit

-- What is handed to on_request and on_upgrade: the messages of the received bytes, one after the
-- other, whatever the callbacks and the layers below do.
namespace Sevent.Http

def Event.dispatched : Event → Option Request
  | .onRequest r => some r
  | .onUpgrade r => some r
  | _ => none

def dispatched (log : List Event) : List Request := log.filterMap Event.dispatched

@[simp] theorem dispatched_append (a b : List Event) :
    dispatched (a ++ b) = dispatched a ++ dispatched b := List.filterMap_append

theorem dispatched_unseen : Unseen Event.dispatched where
  state := fun _ _ => rfl
  completing := fun _ _ => rfl
  shutdown := rfl
  posted := fun _ _ => rfl
  timerRegister := fun _ _ => rfl
  timerUnregister := rfl
  onConnClose := rfl
  freed := rfl

theorem dispatched_untold : Untold Event.dispatched where
  toUnseen := dispatched_unseen
  called := fun _ => rfl
  returned := fun _ => rfl
  alloc := fun _ => rfl
  written := fun _ _ => rfl

-- ---- the messages of the received bytes ----

theorem messages_prefix (buf : Bytes) : ∃ rest, buf = (messages buf).flatMap Prod.fst ++ rest := by
  fun_induction messages buf with
  | case1 buf m h ih =>
      obtain ⟨rest, hrest⟩ := ih
      refine ⟨rest, ?_⟩
      rw [List.flatMap_cons, List.append_assoc, ← hrest, List.take_append_drop]
  | case2 buf _ => exact ⟨buf, rfl⟩

theorem messages_more {buf : Bytes} {p : Bytes × Msg} (h : p ∈ messages buf) (s : Bytes) :
    p ∈ messages (buf ++ s) := by
  obtain ⟨rest, hrest⟩ := messages_prefix buf
  have hall := messages_append (messages_whole buf) (rest ++ s)
  rw [← List.append_assoc, ← hrest] at hall
  rw [hall]
  exact List.mem_append_left _ h

-- Whole messages and what is still in the buffer.
def Framed (stream recv : Bytes) : Prop :=
  ∃ msgs : List (Bytes × Msg), (∀ q ∈ msgs, q.2.Whole q.1) ∧ stream = msgs.flatMap Prod.fst ++ recv

theorem Framed.next {stream recv : Bytes} (h : Framed stream recv) {m : Msg}
    (hparse : parse recv = .complete m) :
    (recv.take m.consumed, m) ∈ messages stream ∧ Framed stream (recv.drop m.consumed) := by
  obtain ⟨msgs, hwhole, hstream⟩ := h
  have hone : m.Whole (recv.take m.consumed) := by
    refine ⟨parse_take_consumed hparse, ?_⟩
    rw [List.length_take]
    exact (Nat.min_eq_left (parse_consumed_le hparse)).symm
  refine ⟨?_, msgs ++ [(recv.take m.consumed, m)], ?_, ?_⟩
  · rw [hstream, messages_append hwhole, ← List.take_append_drop m.consumed recv,
      messages_cons hone]
    rw [List.take_append_drop]
    exact List.mem_append_right _ List.mem_cons_self
  · intro q hq
    rcases List.mem_append.mp hq with hq | hq
    · exact hwhole q hq
    · rw [List.mem_singleton.mp hq]
      exact hone
  · rw [hstream, List.flatMap_append, List.flatMap_singleton, List.append_assoc,
      List.take_append_drop]

theorem Framed.more {stream recv : Bytes} (h : Framed stream recv) (data : Bytes) :
    Framed (stream ++ data) (recv ++ data) := by
  obtain ⟨msgs, hwhole, hstream⟩ := h
  exact ⟨msgs, hwhole, by rw [hstream, List.append_assoc]⟩

-- A connection that closes may have thrown bytes away.
structure Sound (stream : Bytes) (c : Conn) : Prop where
  past : ∀ r ∈ dispatched c.log, ∃ p ∈ messages stream, r = p.2.view p.1
  pending : c.dying = true ∨ Framed stream c.recv

namespace Sound

variable {env : Env} {stream : Bytes} {c c' : Conn}

theorem quiet (h : Sound stream c) (hq : Quiet Event.dispatched c c') (hd : c.dying = true → c'.dying = true) :
    Sound stream c' where
  past := by
    unfold dispatched
    exact hq.view ▸ h.past
  pending := h.pending.imp hd fun hf => hq.recv ▸ hf

theorem dying_of_state {c c' : Conn} (h : c'.state = c.state) : c.dying = true → c'.dying = true := by
  unfold Conn.dying
  rw [h]
  exact id

theorem calls (h : Sound stream c) (script : List Api) : Sound stream (c.calls env script) := by
  refine h.quiet (.calls dispatched_untold env c script) fun hd => ?_
  unfold Conn.calls
  induction script generalizing c with
  | nil => exact hd
  | cons a rest ih =>
      have hcall := dying_call env c a hd
      exact ih (h.quiet (.call dispatched_untold env c a) fun _ => hcall) hcall

theorem closeGraceful (h : Sound stream c) : Sound stream c.closeGraceful :=
  h.quiet (.closeGraceful dispatched_unseen c) fun _ => dying_closeGraceful c

theorem post (h : Sound stream c) (p : Post) : Sound stream (c.post env p).2 :=
  h.quiet (.post dispatched_unseen env c p) id

theorem idleReset (h : Sound stream c) : Sound stream (c.idleReset env) :=
  h.quiet (.idleReset dispatched_unseen env c) (dying_of_state (idleReset_state env c))

theorem respondInternal (h : Sound stream c) (status : Int) :
    Sound stream (c.respondInternal env status true) := by
  refine h.quiet (.respondInternal dispatched_untold env c status true) fun hd => ?_
  unfold Conn.respondInternal
  rw [if_pos hd]
  exact hd

-- The message at the head of the buffer is dispatched.
theorem dispatch (h : Sound stream c) {m : Msg} (hf : Framed stream c.recv)
    (hparse : parse c.recv = .complete m) : Sound stream ((c.begin m).dispatch env m).2 := by
  obtain ⟨hmem, -⟩ := hf.next hparse
  have hbegin : Sound stream (c.begin m) := by
    refine ⟨fun r hr => h.past r ?_, .inr hf⟩
    have hquiet : Quiet Event.dispatched c (c.begin m) := .event rfl rfl rfl
    rwa [dispatched, hquiet.view] at hr
  have hview : m.view c.recv = m.view (c.recv.take m.consumed) := by
    have happend := Msg.view_append (parse_take_consumed hparse) (c.recv.drop m.consumed)
    rwa [List.take_append_drop] at happend
  have hlogged : ∀ e : Event, e.dispatched = some (m.view c.recv) → Sound stream ((c.begin m).emit e) := by
    intro e he
    refine ⟨fun r hr => ?_, .inr hf⟩
    have hlog : dispatched ((c.begin m).emit e).log = dispatched (c.begin m).log ++ [m.view c.recv] := by
      show dispatched ((c.begin m).log ++ [e]) = _
      rw [dispatched_append]
      congr 1
      rw [Http.dispatched, List.filterMap_cons_some he, List.filterMap_nil]
    rw [hlog] at hr
    rcases List.mem_append.mp hr with hr | hr
    · exact hbegin.past r hr
    · exact ⟨_, hmem, (List.mem_singleton.mp hr).trans hview⟩
  unfold Conn.dispatch
  split
  · split
    · exact (hlogged (.onUpgrade (m.view c.recv)) rfl).calls _
    · exact hbegin.respondInternal 400
  · split
    · exact (hlogged (.onRequest (m.view c.recv)) rfl).calls _
    · exact hbegin

theorem dispatch_recv (c : Conn) (m : Msg) : (c.dispatch env m).2.recv = c.recv := by
  unfold Conn.dispatch
  split
  · split
    · exact (Quiet.calls dispatched_untold env (c.emit _) _).recv
    · exact (Quiet.respondInternal dispatched_untold env c 400 true).recv
  · split
    · exact (Quiet.calls dispatched_untold env (c.emit _) _).recv
    · rfl

theorem afterCallback (h : Sound stream c) {consumed : Nat} (hf : Framed stream (c.recv.drop consumed)) :
    Sound stream (c.requestAfterCallback env consumed) := by
  have hrecv : Sound stream { c with recv := c.recv.drop consumed } := ⟨h.past, .inr hf⟩
  unfold Conn.requestAfterCallback
  dsimp only
  split
  · exact hrecv
  rename_i hstate
  split
  · exact (hrecv.quiet (.stateSet dispatched_unseen _ _) fun hd => absurd (.inr (.inl hd)) hstate).idleReset
  · exact hrecv.idleReset

theorem httpProcess (h : Sound stream c) (budget : Nat) : Sound stream (c.httpProcess env budget) := by
  induction budget generalizing c with
  | zero =>
      unfold Conn.httpProcess
      split
      · exact h
      dsimp only
      split
      · exact h.post .process
      · exact (h.post .process).closeGraceful
  | succ budget ih =>
      unfold Conn.httpProcess
      split
      · exact h
      rename_i hready
      have hf : Framed stream c.recv := h.pending.resolve_left fun hd => hready (.inr (.inl hd))
      dsimp only
      split
      · exact h.respondInternal 400
      · split
        · exact h.respondInternal 413
        · exact h
      · rename_i m hparse
        have hdone : Sound stream ((c.begin m).dispatch env m).2 := h.dispatch hf hparse
        have hrecv : ((c.begin m).dispatch env m).2.recv = c.recv := dispatch_recv (c.begin m) m
        split
        · exact hdone
        split
        · exact hdone
        have hnext : Sound stream (((c.begin m).dispatch env m).2.requestAfterCallback env m.consumed) := by
          refine hdone.afterCallback ?_
          rw [hrecv]
          exact (hf.next hparse).2
        split
        · exact ih hnext
        · exact hnext

theorem overflowProcess (h : Sound stream c) (len k : Nat) :
    Sound stream (c.overflowProcess env len k) := by
  induction k generalizing c with
  | zero => exact h
  | succ k ih =>
      unfold Conn.overflowProcess
      split
      · exact ih (h.httpProcess _)
      · exact h

theorem more (h : Sound stream c) (data : Bytes) (hd : c.dying = true ∨ data = []) :
    Sound (stream ++ data) c where
  past := fun r hr => (h.past r hr).imp fun _ hp => ⟨messages_more hp.1 data, hp.2⟩
  pending := hd.elim .inl fun hnil => by
    rw [hnil, List.append_nil]
    exact h.pending

theorem receive (h : Sound stream c) (data : Bytes) (hd : c.dying = false) :
    Sound (stream ++ data) (c.receive env data) := by
  have hf : Framed stream c.recv := h.pending.resolve_left (by rw [hd]; decide)
  have happend : Sound (stream ++ data) { c with recv := c.recv ++ data } :=
    ⟨fun r hr => (h.past r hr).imp fun _ hp => ⟨messages_more hp.1 data, hp.2⟩, .inr (hf.more data)⟩
  unfold Conn.receive
  dsimp only
  split
  · exact happend.idleReset.httpProcess _
  · exact happend.idleReset

-- Bytes that find no room are lost with the connection.
theorem onData (h : Sound stream c) (data : Bytes) : Sound (stream ++ data) (c.onData env data) := by
  have hclose : ∀ d : Conn, Sound stream d → Sound (stream ++ data) d.closeGraceful :=
    fun d hd => hd.closeGraceful.more data (.inl (dying_closeGraceful d))
  unfold Conn.onData
  split
  · exact h.more data (.inl ‹_›)
  rename_i hdying
  split
  · split
    · have hroom : Sound stream (c.overflowProcess env data.length overflowProcessLimit) :=
        h.overflowProcess data.length overflowProcessLimit
      dsimp only
      split
      · rename_i hfit
        exact hroom.receive data (by simpa using hfit.1)
      · exact hclose _ hroom
    · exact hclose c h
  · exact h.receive data (by simpa using hdying)

theorem processPost (h : Sound stream c) : Sound stream (c.processPost env) := by
  unfold Conn.processPost
  split
  · exact h
  split
  · exact h.httpProcess _
  · exact h

theorem terminate (h : Sound stream c) : Sound stream (c.terminate env) := by
  refine h.quiet (.terminate dispatched_unseen env c) fun hd => ?_
  rcases @Conn.terminate_state env c with hs | hs
  · exact dying_of_state hs hd
  · rw [Conn.dying, hs]
    rfl

theorem onOpen (h : Sound stream c) : Sound stream (c.onOpen env) := by
  have hafter : ∀ d : Conn, Sound stream d →
      Sound stream (if d.dying then d.idleReset env else (d.stateSet .parsing).idleReset env) := by
    intro d hd
    split
    · exact hd.idleReset
    · rename_i hdying
      exact (hd.quiet (.stateSet dispatched_unseen d .parsing) fun h => absurd h hdying).idleReset
  unfold Conn.onOpen
  split
  · exact h
  dsimp only
  split
  · exact hafter _ ((h.quiet (.emit c (e := .onAccept) rfl) id).calls _)
  · exact hafter c h

theorem onIdleTimeout (h : Sound stream c) : Sound stream (c.onIdleTimeout env) := by
  have hstop := h.quiet (.idleStop dispatched_unseen c) (dying_of_state (idleStop_state c))
  unfold Conn.onIdleTimeout
  dsimp only
  split
  · exact hstop.terminate
  · exact hstop

end Sound

-- The bytes that the stream hands over in a step.
def Step.received (c : Conn) : Step → Bytes
  | .data d => if c.stream && !c.released && c.state != .new then d else []
  | _ => []

theorem Sound.step {env : Env} {stream : Bytes} {c : Conn} (h : Sound stream c) (s : Step) :
    Sound (stream ++ s.received c) (c.step env s) := by
  have hsame : ∀ {d : Conn}, Sound stream d → Sound (stream ++ []) d := fun hd => by
    rwa [List.append_nil]
  have hclosed : Sound stream (c.onClose env) := by
    unfold Conn.onClose
    split
    · exact h
    · exact h.terminate
  cases s with
  | opened =>
      simp only [Conn.step, Step.received]
      split
      · exact hsame h.onOpen
      · exact hsame h
  | data d =>
      simp only [Conn.step, Step.received]
      split
      · exact h.onData d
      · exact hsame h
  | eof =>
      simp only [Conn.step, Step.received]
      split
      · exact hsame hclosed
      · exact hsame h
  | error =>
      simp only [Conn.step, Step.received]
      split
      · exact hsame hclosed
      · exact hsame h
  | idleTimeout =>
      simp only [Conn.step, Step.received]
      split
      · exact hsame h.onIdleTimeout
      · exact hsame h
  | post =>
      simp only [Conn.step, Step.received]
      split
      · exact hsame h
      · rename_i rest _
        exact hsame (@quiet stream c { c with posts := rest } h ⟨rfl, rfl⟩ id).processPost
      · rename_i rest _
        exact hsame (@quiet stream c ({ c with posts := rest } : Conn).cleanup h (.event rfl rfl rfl) id)
  | call a =>
      simp only [Conn.step, Step.received]
      split
      · exact hsame h
      · exact hsame (h.quiet (.call dispatched_untold env c a) (dying_call env c a))

-- All bytes handed over in a run.
def received (env : Env) : Conn → List Step → Bytes
  | _, [] => []
  | c, s :: rest => s.received c ++ received env (c.step env s) rest

theorem Sound.run {env : Env} {stream : Bytes} {c : Conn} (h : Sound stream c) (steps : List Step) :
    Sound (stream ++ received env c steps) (c.run env steps) := by
  unfold Conn.run
  induction steps generalizing c stream with
  | nil => simpa [received] using h
  | cons s rest ih =>
      have hstep : Sound (stream ++ s.received c) (c.step env s) := h.step s
      have hnext := ih hstep
      rwa [List.append_assoc] at hnext

-- ---- request lines ----

-- The answer is written, and the connection closes.
def Refused (c c' : Conn) : Prop :=
  c'.dying = true ∧ ∃ rest res, res.ret = Err.success ∧
    .written (ascii "HTTP/1.1 400 " ++ rest) res ∈ c'.log.drop c.log.length

def badRequest : Response :=
  { status := 400, text := none, close := false, body := none, bodyLen := 0, headers := [] }

theorem streamWrite_accepted {env : Env} {c : Conn} (hstream : c.stream = true) (data : Bytes) :
    (c.streamWrite env data).1 = (env.write c.log).ret ∧
      c.log ++ [.written data (env.write c.log)] <+: (c.streamWrite env data).2.log := by
  have hwritten : c.log ++ [.written data (env.write c.log)] <+:
      (c.emit (.written data (env.write c.log))).log := List.prefix_rfl
  have hended : c.log ++ [.written data (env.write c.log)] <+:
      (if (c.emit (.written data (env.write c.log))).released then
        c.emit (.written data (env.write c.log))
        else (c.emit (.written data (env.write c.log))).terminate env).log := by
    split
    · exact hwritten
    · exact Conn.terminate_grows hwritten
  unfold Conn.streamWrite
  rw [if_neg (by rw [hstream]; decide)]
  dsimp only
  split
  · exact ⟨by simp [*], hended⟩
  · exact ⟨by simp [*], hended⟩
  · exact ⟨rfl, hwritten⟩

-- A handler that answers nothing, and a peer that sends a response.
def silent : Env :=
  { onAccept := none, onRequest := some fun _ => [], onUpgrade := none, onConnClose := false
    idleTimeoutMs := 0, write := fun _ => .ok, alloc := fun _ => true, post := fun _ => true
    timer := fun _ => true }

end Sevent.Http
