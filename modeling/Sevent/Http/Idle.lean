import Sevent.Trace
import Sevent.Http.Visit

-- The idle timer of a connection: when there is one, and when a half-close is left without.
namespace Sevent.Http

open Sevent.Trace

-- What an event says of the timer.
def Event.timer (on : Bool) : Event → Bool
  | .timerRegister _ ok => ok
  | .timerUnregister => false
  | _ => on

def timerOn (log : List Event) : Bool := log.foldl Event.timer false

theorem timerOn_concat (log : List Event) (e : Event) : timerOn (log ++ [e]) = e.timer (timerOn log) := by
  simp [timerOn]

-- A half-close with no timer, other than that of a connection that on_accept turns away.
def Exposed (past : List Event) : Event → Prop
  | .state old next => old ≠ .new ∧ next = .closing ∧ timerOn past = false
  | _ => False

instance decidableExposed (past : List Event) (e : Event) : Decidable (Exposed past e) := by
  cases e <;> unfold Exposed <;> infer_instance

namespace Conn

def waiting (c : Conn) : Bool := c.state == .parsing || c.state == .awaitResp || c.state == .closing

-- A silent peer is not waited for without a timer.
def Protected (c : Conn) : Prop := c.waiting = true → c.idleTimer = true

instance decidableProtected (c : Conn) : Decidable c.Protected :=
  inferInstanceAs (Decidable (_ = _ → _ = _))

structure Sane (c : Conn) : Prop where
  timer : c.idleTimer = timerOn c.log
  clean : AtEach (fun past e => ¬ Exposed past e) c.log

structure Guarded (c : Conn) : Prop extends Sane c where
  open_ : c.state ≠ .new
  safe : c.Protected

structure Lost (c : Conn) : Prop where
  state : c.state = .closing
  timer : c.idleTimer = false
  exposed : Somewhere Exposed c.log

variable {env : Env} {c c' : Conn}

-- One event, and the timer as it says.
theorem Sane.next (h : Sane c) {e : Event} (hlog : c'.log = c.log ++ [e])
    (htimer : c'.idleTimer = e.timer c.idleTimer) (he : ¬ Exposed c.log e) : Sane c' where
  timer := by rw [hlog, timerOn_concat, htimer, h.timer]
  clean := by
    rw [hlog]
    exact (atEach_concat _ _ _).mpr ⟨h.clean, he⟩

theorem Sane.same (h : Sane c) (hlog : c'.log = c.log) (htimer : c'.idleTimer = c.idleTimer) : Sane c' where
  timer := by rw [hlog, htimer, h.timer]
  clean := hlog ▸ h.clean

theorem Sane.emit (h : Sane c) {e : Event} (ht : ∀ on, e.timer on = on) (he : ∀ past, ¬ Exposed past e) :
    Sane (c.emit e) :=
  h.next rfl (ht _).symm (he _)

theorem Sane.idleStop (h : Sane c) : Sane c.idleStop := by
  unfold Conn.idleStop
  split
  · exact h.next rfl rfl (fun h => h)
  · exact h

section

variable (hidle : 0 ≤ env.idleTimeoutMs) (htimer : ∀ log, env.timer log = true)
include hidle htimer

theorem Sane.idleReset (h : Sane c) : Sane (c.idleReset env) ∧ (c.idleReset env).idleTimer = true := by
  unfold Conn.idleReset
  rw [if_neg (by omega)]
  refine ⟨?_, htimer _⟩
  exact h.idleStop.next rfl rfl fun h => h

theorem Sane.reset (h : Sane c) (hnew : c.state ≠ .new) : Guarded (c.idleReset env) := by
  obtain ⟨hsane, hon⟩ := h.idleReset hidle htimer
  exact ⟨hsane, by rwa [idleReset_state], fun _ => hon⟩

end

-- What leaves the states in which the peer is waited for.
theorem Sane.left (h : Sane c) (hnew : c.state ≠ .new) (hstate : c.waiting = false) : Guarded c :=
  ⟨h, hnew, fun hw => by rw [hstate] at hw; cases hw⟩

theorem Sane.stateSet (h : Sane c) {next : ConnState} (hnext : next ≠ .closing) : Sane (c.stateSet next) :=
  h.next rfl rfl fun h => hnext h.2.1

theorem Sane.free (h : Sane c) : Sane (c.free env) := by
  have hnotified : Sane (if env.onConnClose && !c.released then c.emit .onConnClose else c) := by
    split
    · exact h.emit (fun _ => rfl) (fun _ h => h)
    · exact h
  unfold Conn.free
  dsimp only
  generalize (if env.onConnClose && !c.released then c.emit .onConnClose else c) = d at hnotified ⊢
  have hposted : Sane (d.post env .cleanup).2 := hnotified.next rfl rfl fun h => h
  split
  · exact hposted
  · exact hposted.next rfl rfl fun h => h

theorem Sane.freed (h : Sane c) (hstate : c.state = .closed) : Guarded (c.free env) := by
  have hclosed : (c.free env).state = .closed := (free_state c).trans hstate
  refine h.free.left (fun hnew => ?_) ?_
  · cases hclosed.symm.trans hnew
  · unfold waiting
    rw [hclosed]
    rfl

theorem Sane.terminate (h : Sane c) (hlive : c.dead = false) : Guarded (c.terminate env) := by
  unfold Conn.terminate
  rw [if_neg (by simp [hlive])]
  have hstopped : Sane ((c.stateSet .closed).idleStop) := (h.stateSet (by decide)).idleStop
  refine Sane.freed ?_ ?_
  · exact hstopped.same rfl rfl
  · exact idleStop_state _

theorem Guarded.terminate (h : Guarded c) : Guarded (c.terminate env) := by
  cases hdead : c.dead with
  | true =>
      unfold Conn.terminate
      rw [if_pos hdead]
      exact h
  | false => exact h.toSane.terminate hdead

theorem Guarded.note (h : Guarded c) {e : Event} (ht : ∀ on, e.timer on = on)
    (he : ∀ past, ¬ Exposed past e) : Guarded (c.emit e) :=
  ⟨h.toSane.emit ht he, h.open_, h.safe⟩

theorem Guarded.write (h : Guarded c) (data : Bytes) : Guarded (c.streamWrite env data).2 := by
  have hwritten : Guarded (c.emit (.written data (env.write c.log))) := h.note (fun _ => rfl) (fun _ h => h)
  unfold Conn.streamWrite
  split
  · exact h
  dsimp only
  split
  · dsimp only
    split
    · exact hwritten
    · exact hwritten.terminate
  · dsimp only
    split
    · exact hwritten
    · exact hwritten.terminate
  · exact hwritten

theorem Lost.note (h : Lost c) (e : Event) : Lost (c.emit e) :=
  ⟨h.state, h.timer, h.exposed.mono (List.prefix_append _ _)⟩

-- The only place where the timer can be missing.
theorem Guarded.closeGraceful (h : Guarded c) : Guarded c.closeGraceful ∨ Lost c.closeGraceful := by
  unfold Conn.closeGraceful
  split
  · exact .inl h
  have hset : Guarded (c.stateSet .closing) ∨ Lost (c.stateSet .closing) := by
    cases ht : c.idleTimer with
    | true =>
        left
        refine ⟨h.toSane.next rfl rfl ?_, (by decide : ConnState.closing ≠ .new), fun _ => ht⟩
        rintro ⟨-, -, hoff⟩
        cases ht.symm.trans (h.timer.trans hoff)
    | false =>
        right
        exact ⟨rfl, ht, c.log, _, List.prefix_rfl, h.open_, rfl, h.timer.symm.trans ht⟩
  dsimp only
  split
  · exact hset.imp (fun h => h.note (fun _ => rfl) (fun _ h => h)) fun h => h.note _
  · exact hset

def Watched (c : Conn) : Prop := Guarded c ∨ Lost c

theorem Watched.guarded (h : Watched c) (hstate : c.state ≠ .closing) : Guarded c :=
  h.resolve_right fun h => hstate h.state

theorem watched_upheld (hidle : 0 ≤ env.idleTimeoutMs) (htimer : ∀ log, env.timer log = true) :
    Upholds env Watched where
  note := fun {c e} he h => by
    refine h.imp (fun h => h.note ?_ ?_) fun h => h.note e
    · intro on
      cases e <;> first | rfl | cases he
    · intro past
      cases e <;> first | exact (fun h => h) | cases he
  recv := fun b h => h.imp (fun h => ⟨h.toSane.same rfl rfl, h.open_, h.safe⟩)
    fun h => ⟨h.state, h.timer, h.exposed⟩
  flags := fun p w h => h.imp (fun h => ⟨h.toSane.same rfl rfl, h.open_, h.safe⟩)
    fun h => ⟨h.state, h.timer, h.exposed⟩
  write := fun data hstate h => .inl ((h.guarded hstate).write data)
  closeGraceful := fun {c} h => by
    rcases h with h | h
    · exact h.closeGraceful
    · have hsame : c.closeGraceful = c := if_pos (by simp [dying, h.state])
      rw [hsame]
      exact .inr h
  parsed := fun hclosing _ _ _ h =>
    .inl (((h.guarded hclosing).toSane.stateSet (by decide)).reset hidle htimer (by decide : ConnState.parsing ≠ .new))
  streaming := fun hstate h =>
    .inl (((h.guarded (by rw [hstate]; decide)).toSane.stateSet (by decide)).left
      (by decide : ConnState.responding ≠ .new) rfl)
  post := fun h => h.imp (fun h => ⟨h.toSane.next rfl rfl fun h => h, h.open_, h.safe⟩)
    fun h => ⟨h.state, h.timer, h.exposed.mono (List.prefix_append _ _)⟩
  release := fun {c} hstate h => by
    have hsane := (h.guarded (by rw [hstate]; decide)).toSane
    have hset : Sane ({ c with released := true }.stateSet .released) :=
      (hsane.same rfl rfl : Sane { c with released := true }).stateSet (by decide)
    refine .inl (hset.idleStop.left ?_ ?_)
    · rw [idleStop_state]
      exact (by decide : ConnState.released ≠ .new)
    · rw [waiting, idleStop_state]
      rfl
  begin := fun {c m} hstate h => by
    have hsane := (h.guarded (by rw [hstate]; decide)).toSane
    have hset : Sane ({ c with reqKeepAlive := m.keepAlive }.stateSet .request) :=
      (hsane.same rfl rfl : Sane { c with reqKeepAlive := m.keepAlive }).stateSet (by decide)
    have hbegun : Sane (c.begin m) := hset.same rfl rfl
    exact .inl (hbegun.left (by decide : ConnState.request ≠ .new) rfl)
  settled := fun {c} hstate h => by
    have hsane := (h.guarded (by rw [hstate]; decide)).toSane
    have hnext : (if c.wrote then ConnState.responding else .awaitResp) ≠ .closing := by split <;> decide
    have hopen : (if c.wrote then ConnState.responding else .awaitResp) ≠ .new := by split <;> decide
    exact .inl ((hsane.stateSet hnext).reset hidle htimer hopen)
  reset := fun {c} hd h => by
    have hg := h.guarded fun hs => by simp [dying, hs] at hd
    exact .inl (hg.toSane.reset hidle htimer hg.open_)

-- ---- on_open ----

-- on_accept can only turn the connection away.
structure Fresh (c : Conn) : Prop extends Sane c where
  state : c.state = .new ∨ c.state = .closing

theorem Fresh.note (h : Fresh c) {e : Event} (ht : ∀ on, e.timer on = on)
    (he : ∀ past, ¬ Exposed past e) : Fresh (c.emit e) :=
  ⟨h.toSane.emit ht he, h.state⟩

theorem Fresh.close (h : Fresh c) : Fresh c.close := by
  unfold Conn.close closeGraceful
  split
  · exact h
  rename_i hd
  have hnew : c.state = .new := by
    rcases h.state with hs | hs
    · exact hs
    · exact absurd (by simp [dying, hs]) hd
  split
  · exact ⟨h.toSane.same rfl rfl, h.state⟩
  have hset : Fresh ({ c with closePending := true }.stateSet .closing) := by
    refine ⟨(h.toSane.same rfl rfl : Sane { c with closePending := true }).next rfl rfl ?_, .inr rfl⟩
    exact fun hexposed => hexposed.1 hnew
  dsimp only
  split
  · exact hset.note (fun _ => rfl) (fun _ h => h)
  · exact hset

theorem Fresh.call (h : Fresh c) (a : Api) : Fresh (c.call env a) := by
  have hcalled : Fresh (c.emit (.called a)) := h.note (fun _ => rfl) (fun _ h => h)
  have hreturned : ∀ {c : Conn} (rc : Int), Fresh c → Fresh (c.emit (.returned rc)) :=
    fun rc h => h.note (fun _ => rfl) (fun _ h => h)
  have hstate : (c.emit (.called a)).state ≠ .request ∧ (c.emit (.called a)).state ≠ .awaitResp ∧
      (c.emit (.called a)).state ≠ .responding := by
    rcases hcalled.state with hs | hs <;> rw [hs] <;> decide
  unfold Conn.call
  generalize c.emit (.called a) = d at hcalled hstate ⊢
  cases a with
  | respond resp =>
      have hno : d.respond env resp = (Err.inval, d) := if_pos ⟨hstate.1, hstate.2.1⟩
      simp only [hno]
      exact hreturned _ hcalled
  | write data =>
      have hno : (d.write env data).2 = d := by
        cases data with
        | none => rfl
        | some data => exact congrArg Prod.snd (if_pos hstate)
      show Fresh ((d.write env data).2.emit _)
      rw [hno]
      exact hreturned _ hcalled
  | writeEnd =>
      have hno : d.writeEnd env = (Err.inval, d) := if_pos ⟨hstate.1, hstate.2.2⟩
      simp only [hno]
      exact hreturned _ hcalled
  | close => exact hreturned _ hcalled.close
  | release =>
      have hno : d.release.2 = d := by
        unfold Conn.release
        split
        · rfl
        · exact congrArg Prod.snd (if_pos hstate.1)
      show Fresh (d.release.2.emit _)
      rw [hno]
      exact hreturned _ hcalled

theorem Fresh.calls (h : Fresh c) (script : List Api) : Fresh (c.calls env script) := by
  induction script generalizing c with
  | nil => exact h
  | cons a rest ih => exact ih (h.call a)

theorem Fresh.onOpen (hidle : 0 ≤ env.idleTimeoutMs) (htimer : ∀ log, env.timer log = true)
    (h : Fresh c) (hreleased : c.released = false) : Guarded (c.onOpen env) := by
  have hafter : ∀ d : Conn, Fresh d →
      Guarded (if d.dying then d.idleReset env else (d.stateSet .parsing).idleReset env) := by
    intro d hd
    split
    · rename_i hdying
      refine hd.toSane.reset hidle htimer fun hnew => ?_
      simp [dying, hnew] at hdying
    · exact (hd.toSane.stateSet (by decide)).reset hidle htimer (by decide : ConnState.parsing ≠ .new)
  unfold Conn.onOpen
  rw [if_neg (by simp [hreleased])]
  split
  · rename_i cb _
    have haccept : Fresh (c.emit .onAccept) := h.note (fun _ => rfl) (fun _ h => h)
    exact hafter _ (haccept.calls _)
  · exact hafter _ h

-- ---- whole runs ----

theorem Guarded.onIdleTimeout (h : Guarded c) : Guarded (c.onIdleTimeout env) := by
  unfold Conn.onIdleTimeout
  dsimp only
  have hstopped := h.toSane.idleStop
  split
  · rename_i hwait
    refine hstopped.terminate ?_
    unfold dead
    rcases hwait with hs | hs | hs <;> rw [hs] <;> rfl
  · rename_i hwait
    refine hstopped.left (by rw [idleStop_state]; exact h.open_) ?_
    simpa [waiting, and_assoc] using hwait

section

variable (hidle : 0 ≤ env.idleTimeoutMs) (htimer : ∀ log, env.timer log = true)
include hidle htimer

theorem Guarded.step (h : Guarded c) (s : Step) : Watched (c.step env s) := by
  have hserves := (watched_upheld hidle htimer).serves
  have hend : Guarded (c.onClose env) := by
    unfold Conn.onClose
    split
    · exact h
    · exact h.terminate
  cases s with
  | opened =>
      simp only [Conn.step]
      split
      · rename_i ho
        rw [Bool.and_eq_true, beq_iff_eq] at ho
        exact absurd ho.2 h.open_
      · exact .inl h
  | data d =>
      simp only [Conn.step]
      split
      · exact hserves.onData d (.inl h)
      · exact .inl h
  | eof =>
      simp only [Conn.step]
      split
      · exact .inl hend
      · exact .inl h
  | error =>
      simp only [Conn.step]
      split
      · exact .inl hend
      · exact .inl h
  | idleTimeout =>
      simp only [Conn.step]
      split
      · exact .inl (h.onIdleTimeout)
      · exact .inl h
  | post =>
      simp only [Conn.step]
      split
      · exact .inl h
      · rename_i rest _
        have hrest : Watched { c with posts := rest } := .inl ⟨h.toSane.same rfl rfl, h.open_, h.safe⟩
        exact hserves.processPost hrest
      · exact .inl ⟨h.toSane.next rfl rfl fun h => h, h.open_, h.safe⟩
  | call a =>
      simp only [Conn.step]
      split
      · exact .inl h
      · exact hserves.call a (.inl h)

end

-- A connection after on_open, and what follows.
def serve (env : Env) (cap : Nat) (steps : List Step) : Conn :=
  ((accepted cap).step env .opened).run env steps

theorem serve_append (env : Env) (cap : Nat) (a b : List Step) :
    serve env cap (a ++ b) = (serve env cap a).run env b :=
  run_append a b _

theorem accepted_guarded (hidle : 0 ≤ env.idleTimeoutMs) (htimer : ∀ log, env.timer log = true)
    (cap : Nat) : Guarded ((accepted cap).step env .opened) := by
  have hfresh : Fresh (accepted cap) := ⟨⟨rfl, atEach_nil _⟩, .inl rfl⟩
  exact hfresh.onOpen hidle htimer rfl

-- The timer is there whenever a silent peer is waited for, in exactly those runs in which no
-- half-close finds it gone.
theorem idle_protected_iff (env : Env) (hidle : 0 ≤ env.idleTimeoutMs)
    (htimer : ∀ log, env.timer log = true) (cap : Nat) (steps : List Step) :
    (∀ done, done <+: steps → (serve env cap done).Protected) ↔
      ¬ Somewhere Exposed (serve env cap steps).log := by
  have hlost : ∀ c : Conn, Lost c → ¬ c.Protected := by
    intro c h hp
    cases (hp (by simp [waiting, h.state])).symm.trans h.timer
  have hstep : ∀ done s, Guarded (serve env cap done) → Watched (serve env cap (done ++ [s])) := by
    intro done s h
    rw [serve_append]
    exact h.step hidle htimer s
  constructor
  · intro h
    rw [not_somewhere_iff]
    suffices hg : Guarded (serve env cap steps) from hg.clean
    induction steps using List.reverseRecOn with
    | nil => exact accepted_guarded hidle htimer cap
    | append_singleton steps s ih =>
        have hdone := ih fun done hp => h done (hp.trans (List.prefix_append _ _))
        exact (hstep steps s hdone).resolve_right fun hl => hlost _ hl (h _ List.prefix_rfl)
  · intro hclean
    suffices hg : ∀ done, ¬ Somewhere Exposed (serve env cap done).log →
        Guarded (serve env cap done) by
      rintro done ⟨rest, rfl⟩
      rw [serve_append] at hclean
      exact (hg done fun h => hclean (h.mono (run_grows rest List.prefix_rfl))).safe
    intro done
    induction done using List.reverseRecOn with
    | nil => exact fun _ => accepted_guarded hidle htimer cap
    | append_singleton done s ih =>
        intro hclean
        have hdone := ih fun h => hclean (by
          rw [serve_append]
          exact h.mono (step_grows s List.prefix_rfl))
        exact (hstep done s hdone).resolve_right fun hl => hclean hl.exposed

-- A handler that writes the first part of a response, and a user who writes the rest later.
def streaming : Env :=
  { onAccept := none, onRequest := some fun _ => [.write (some (ascii "HTTP/1.1 200 OK\r\n\r\n"))]
    onUpgrade := none, onConnClose := true, idleTimeoutMs := 0, write := fun _ => .ok
    alloc := fun _ => true, post := fun _ => true, timer := fun _ => true }

def closingRequest : Bytes := ascii "GET / HTTP/1.0\r\n\r\n"

-- The timer is still there when the response is complete.
theorem idle_protected_prompt :
    (serve streaming 64 [.data closingRequest, .call .writeEnd]).state = .closing ∧
      (serve streaming 64 [.data closingRequest, .call .writeEnd]).Protected := by
  obtain ⟨hstate, hclean⟩ :
      (serve streaming 64 [.data closingRequest, .call .writeEnd]).state = .closing ∧
        ¬ Somewhere Exposed (serve streaming 64 [.data closingRequest, .call .writeEnd]).log := by
    decide +kernel
  exact ⟨hstate, (idle_protected_iff streaming (by decide) (fun _ => rfl) 64 _).mpr hclean _
    List.prefix_rfl⟩

-- It expires while the response is being written: the half-close that follows has none.
theorem half_close_unprotected :
    ¬ (serve streaming 64 [.data closingRequest, .idleTimeout, .call .writeEnd]).Protected := by
  decide +kernel

end Conn

end Sevent.Http
