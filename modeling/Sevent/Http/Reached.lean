import Sevent.Http.Visit

-- The moments of a connection: what it can look like whenever its code or a callback runs.
namespace Sevent.Http

-- A call on a connection as it stands, or a message for the callbacks of the user.
inductive Act where
  | call (c : Conn) (a : Api)
  | dispatch (c : Conn) (m : Msg)

-- Every moment of every run, with the calls and the messages so far.
inductive Course (env : Env) (recvCap : Nat) : List Act → Conn → Prop where
  | accepted : Course env recvCap [] (Conn.accepted recvCap)
  | call {acts : List Act} {c : Conn} (a : Api) : Course env recvCap acts c →
      Course env recvCap (acts ++ [.call c a]) (c.call env a)
  | onAccept {acts : List Act} {c : Conn} : c.state = .new → Course env recvCap acts c →
      Course env recvCap acts (c.emit .onAccept)
  | opened {acts : List Act} {c : Conn} : c.state = .new → Course env recvCap acts c →
      Course env recvCap acts ((c.stateSet .parsing).idleReset env)
  | onRequest {acts : List Act} {c : Conn} {m : Msg} {cb : List Event → List Api} : c.state = .parsing →
      parse c.recv = .complete m → m.upgrade = false → env.onRequest = some cb → Course env recvCap acts c →
      Course env recvCap (acts ++ [.dispatch c m]) ((c.begin m).emit (.onRequest (m.view c.recv)))
  | onUpgrade {acts : List Act} {c : Conn} {m : Msg} {cb : List Event → List Api × Bool} :
      c.state = .parsing → parse c.recv = .complete m → m.upgrade = true → env.onUpgrade = some cb →
      Course env recvCap acts c →
      Course env recvCap (acts ++ [.dispatch c m]) ((c.begin m).emit (.onUpgrade (m.view c.recv)))
  -- a message that no callback is registered for
  | unheard {acts : List Act} {c : Conn} {m : Msg} : c.state = .parsing → parse c.recv = .complete m →
      m.upgrade = false → env.onRequest = none → Course env recvCap acts c →
      Course env recvCap (acts ++ [.dispatch c m]) (c.begin m)
  | declined {acts : List Act} {c : Conn} {m : Msg} : c.state = .parsing → parse c.recv = .complete m →
      m.upgrade = true → env.onUpgrade = none → Course env recvCap acts c →
      Course env recvCap (acts ++ [.dispatch c m]) ((c.begin m).respondInternal env 400 true)
  | internal {acts : List Act} {c : Conn} (status : Int) : c.state = .parsing → Course env recvCap acts c →
      Course env recvCap acts (c.respondInternal env status true)
  | settled {acts : List Act} {c : Conn} : c.state = .request → Course env recvCap acts c →
      Course env recvCap acts ((c.stateSet (if c.wrote then .responding else .awaitResp)).idleReset env)
  | recv {acts : List Act} {c : Conn} (b : Bytes) : Course env recvCap acts c →
      Course env recvCap acts { c with recv := b }
  | idleStop {acts : List Act} {c : Conn} : Course env recvCap acts c → Course env recvCap acts c.idleStop
  | idleReset {acts : List Act} {c : Conn} : Course env recvCap acts c →
      Course env recvCap acts (c.idleReset env)
  | post {acts : List Act} {c : Conn} : Course env recvCap acts c →
      Course env recvCap acts (c.post env .process).2
  | popped {acts : List Act} {c : Conn} {p : Post} {rest : List Post} : c.posts = p :: rest →
      Course env recvCap acts c → Course env recvCap acts { c with posts := rest }
  | closeGraceful {acts : List Act} {c : Conn} : Course env recvCap acts c →
      Course env recvCap acts c.closeGraceful
  | terminate {acts : List Act} {c : Conn} : Course env recvCap acts c →
      Course env recvCap acts (c.terminate env)
  | cleanup {acts : List Act} {c : Conn} : Course env recvCap acts c → Course env recvCap acts c.cleanup

def Reached (env : Env) (recvCap : Nat) (c : Conn) : Prop := ∃ acts, Course env recvCap acts c

-- ---- a connection that is not open yet ----

-- A call finds nothing to answer; it can only close.
theorem call_new (env : Env) {c : Conn} (hnew : c.state = .new) (a : Api) :
    (c.call env a).state = .new ∨ (c.call env a).dying = true := by
  cases a with
  | respond resp =>
      left
      simp [Conn.call, Conn.respond, Conn.emit, hnew]
  | write data =>
      left
      cases data with
      | none => exact hnew
      | some data => simp [Conn.call, Conn.write, Conn.emit, hnew]
  | writeEnd =>
      left
      simp [Conn.call, Conn.writeEnd, Conn.emit, hnew]
  | close =>
      right
      have hopen : (c.emit (.called .close)).dying = false := by
        rw [Conn.dying, Conn.emit, hnew]
        rfl
      have hclosed : ((c.emit (.called .close)).close).dying = true := by
        unfold Conn.close
        rw [if_neg (by rw [hopen]; decide)]
        exact dying_closeGraceful _
      exact hclosed
  | release =>
      left
      have hstay : (c.emit (.called .release)).release.2 = c.emit (.called .release) := by
        unfold Conn.release
        split
        · rfl
        · have hnot : (c.emit (.called .release)).state ≠ .request := by
            rw [Conn.emit, hnew]
            decide
          rw [if_pos hnot]
      show (c.emit (.called .release)).release.2.state = .new
      rw [hstay]
      exact hnew

theorem calls_new (env : Env) (script : List Api) {c : Conn} (hc : c.state = .new ∨ c.dying = true) :
    (c.calls env script).state = .new ∨ (c.calls env script).dying = true := by
  unfold Conn.calls
  induction script generalizing c with
  | nil => exact hc
  | cons a rest ih =>
      refine ih ?_
      rcases hc with hnew | hd
      · exact call_new env hnew a
      · exact .inr (dying_call env c a hd)

namespace Reached

variable {env : Env} {recvCap : Nat} {c : Conn}

-- A moment that adds nothing to the calls and the messages.
theorem still {d : Conn} (h : Reached env recvCap c)
    (hstep : ∀ acts, Course env recvCap acts c → Course env recvCap acts d) : Reached env recvCap d :=
  h.imp hstep

theorem hosts (env : Env) (recvCap : Nat) : Hosts env (Reached env recvCap) where
  call := fun a h => h.elim fun _ h => ⟨_, .call a h⟩
  onRequest := fun hstate hparse hupgrade hcb h => h.elim fun _ h => ⟨_, .onRequest hstate hparse hupgrade hcb h⟩
  onUpgrade := fun hstate hparse hupgrade hcb h => h.elim fun _ h => ⟨_, .onUpgrade hstate hparse hupgrade hcb h⟩
  unheard := fun hstate hparse hupgrade hcb h => h.elim fun _ h => ⟨_, .unheard hstate hparse hupgrade hcb h⟩
  declined := fun hstate hparse hupgrade hcb h => h.elim fun _ h => ⟨_, .declined hstate hparse hupgrade hcb h⟩
  internal := fun status hstate h => h.still fun _ => .internal status hstate
  settled := fun hstate h => h.still fun _ => .settled hstate
  recv := fun b h => h.still fun _ => .recv b
  reset := fun _ h => h.still fun _ => .idleReset
  post := fun h => h.still fun _ => .post
  closeGraceful := fun h => h.still fun _ => .closeGraceful

theorem onOpen (h : Reached env recvCap c) (hnew : c.state = .new) : Reached env recvCap (c.onOpen env) := by
  have hafter : ∀ d : Conn, Reached env recvCap d → d.state = .new ∨ d.dying = true →
      Reached env recvCap (if d.dying then d.idleReset env else (d.stateSet .parsing).idleReset env) := by
    intro d hd hcases
    split
    · exact hd.still fun _ => .idleReset
    · exact hd.still fun _ => .opened (hcases.resolve_right ‹_›)
  unfold Conn.onOpen
  split
  · exact h
  split
  · refine hafter _ ((hosts env recvCap).calls _ (h.still fun _ => .onAccept hnew)) ?_
    exact calls_new env _ (.inl hnew)
  · exact hafter _ h (.inl hnew)

theorem onClose (h : Reached env recvCap c) : Reached env recvCap (c.onClose env) := by
  unfold Conn.onClose
  split
  · exact h
  · exact h.still fun _ => .terminate

theorem step (h : Reached env recvCap c) (s : Step) : Reached env recvCap (c.step env s) := by
  cases s with
  | opened =>
      simp only [Conn.step]
      split
      · rename_i hnew
        exact onOpen h (by simpa using (Bool.and_eq_true_iff.mp hnew).2)
      · exact h
  | data d =>
      simp only [Conn.step]
      split
      · exact (hosts env recvCap).onData d h
      · exact h
  | eof =>
      simp only [Conn.step]
      split
      · exact onClose h
      · exact h
  | error =>
      simp only [Conn.step]
      split
      · exact onClose h
      · exact h
  | idleTimeout =>
      simp only [Conn.step]
      split
      · have hstop : Reached env recvCap c.idleStop := h.still fun _ => .idleStop
        unfold Conn.onIdleTimeout
        dsimp only
        split
        · exact hstop.still fun _ => .terminate
        · exact hstop
      · exact h
  | post =>
      simp only [Conn.step]
      split
      · exact h
      · rename_i hposts
        exact (hosts env recvCap).processPost (h.still fun _ => .popped hposts)
      · rename_i rest hposts
        have hpopped : Reached env recvCap { c with posts := rest } := h.still fun _ => .popped hposts
        exact hpopped.still fun _ => .cleanup
  | call a =>
      simp only [Conn.step]
      split
      · exact h
      · exact (hosts env recvCap).call a h

theorem run (env : Env) (recvCap : Nat) (steps : List Step) :
    Reached env recvCap ((Conn.accepted recvCap).run env steps) := by
  have hrun : ∀ c : Conn, Reached env recvCap c → Reached env recvCap (c.run env steps) := by
    unfold Conn.run
    induction steps with
    | nil => exact fun _ h => h
    | cons s rest ih => exact fun c h => ih _ (step h s)
  exact hrun _ ⟨[], .accepted⟩

end Reached

-- ---- legal transitions ----

def Event.legal : Event → Bool
  | .state old next => stateOk old next
  | _ => true

-- Every call of http_state_set so far was within the matrix.
def Legal (log : List Event) : Prop := ∀ e ∈ log, e.legal = true

theorem Legal.append {log : List Event} (h : Legal log) {e : Event} (he : e.legal = true) :
    Legal (log ++ [e]) := by
  intro x hx
  rcases List.mem_append.mp hx with hx | hx
  · exact h x hx
  · rw [List.mem_singleton.mp hx]
    exact he

theorem Legal.earlier {log log' : List Event} (h : Legal log') (hp : log <+: log') : Legal log :=
  fun e he => h e (hp.subset he)

-- Legal, and neither a request taken up nor a response completed.
def Event.quiet : Event → Bool
  | .state old next => stateOk old next && next != .request
  | .completing _ _ => false
  | _ => true

theorem Event.quiet.legal {e : Event} (h : e.quiet = true) : e.legal = true := by
  cases e with
  | state old next => exact (Bool.and_eq_true_iff.mp h).1
  | _ => rfl

-- Every state that is left may be left for CLOSED.
theorem stateOk_closed {s : ConnState} (h : (s == .closed || s == .released) = false) :
    stateOk s .closed = true := by
  cases s <;> first | rfl | cases h

theorem stateOk_closing {c : Conn} (h : c.dying = false) : stateOk c.state .closing = true := by
  unfold Conn.dying at h
  revert h
  cases c.state <;> decide

-- ---- what the layers below can change ----

structure Level (c c' : Conn) : Prop where
  closePending : c'.closePending = c.closePending
  reqKeepAlive : c'.reqKeepAlive = c.reqKeepAlive
  released : c'.released = c.released
  state : c'.state = c.state ∨ c.dead = false ∧ c'.state = .closed
  adds : ∃ es, c'.log = c.log ++ es ∧ ∀ e ∈ es, e.quiet = true

namespace Level

theorem grows {c c' : Conn} (h : Level c c') : c.log <+: c'.log := by
  obtain ⟨es, hlog, -⟩ := h.adds
  exact ⟨es, hlog.symm⟩

theorem legal {c c' : Conn} (h : Level c c') (hlegal : Legal c.log) : Legal c'.log := by
  obtain ⟨es, hlog, hes⟩ := h.adds
  intro e he
  rw [hlog] at he
  rcases List.mem_append.mp he with he | he
  · exact hlegal e he
  · exact Event.quiet.legal (hes e he)

theorem still {c c' : Conn} (hpending : c'.closePending = c.closePending)
    (hkeep : c'.reqKeepAlive = c.reqKeepAlive) (hreleased : c'.released = c.released)
    (hstate : c'.state = c.state) (hlog : c'.log = c.log) : Level c c' :=
  ⟨hpending, hkeep, hreleased, .inl hstate, [], by rw [hlog, List.append_nil], fun _ he => absurd he List.not_mem_nil⟩

theorem noted {c c' : Conn} {e : Event} (hpending : c'.closePending = c.closePending)
    (hkeep : c'.reqKeepAlive = c.reqKeepAlive) (hreleased : c'.released = c.released)
    (hstate : c'.state = c.state) (hlog : c'.log = c.log ++ [e]) (he : e.quiet = true) : Level c c' :=
  ⟨hpending, hkeep, hreleased, .inl hstate, [e], hlog, List.forall_mem_singleton.mpr he⟩

theorem refl (c : Conn) : Level c c := still rfl rfl rfl rfl rfl

theorem emit (c : Conn) {e : Event} (he : e.quiet = true) : Level c (c.emit e) :=
  noted rfl rfl rfl rfl rfl he

theorem trans {a b c : Conn} (h : Level a b) (h' : Level b c) : Level a c where
  closePending := h'.closePending.trans h.closePending
  reqKeepAlive := h'.reqKeepAlive.trans h.reqKeepAlive
  released := h'.released.trans h.released
  state := by
    rcases h.state with hab | ⟨hlive, hclosed⟩
    · rcases h'.state with hbc | ⟨hlive, hclosed⟩
      · exact .inl (hbc.trans hab)
      · exact .inr ⟨by rwa [Conn.dead, hab] at hlive, hclosed⟩
    · rcases h'.state with hbc | ⟨-, hclosed'⟩
      · exact .inr ⟨hlive, hbc.trans hclosed⟩
      · exact .inr ⟨hlive, hclosed'⟩
  adds := by
    obtain ⟨es, hes, hquiet⟩ := h.adds
    obtain ⟨es', hes', hquiet'⟩ := h'.adds
    refine ⟨es ++ es', by rw [hes', hes, List.append_assoc], fun e he => ?_⟩
    rcases List.mem_append.mp he with he | he
    · exact hquiet e he
    · exact hquiet' e he

theorem idleStop (c : Conn) : Level c c.idleStop := by
  unfold Conn.idleStop
  split
  · exact noted rfl rfl rfl rfl rfl rfl
  · exact refl c

variable (env : Env)

theorem idleReset (c : Conn) : Level c (c.idleReset env) := by
  unfold Conn.idleReset
  split
  · exact refl c
  · exact (idleStop c).trans (noted rfl rfl rfl rfl rfl rfl)

theorem post (c : Conn) (p : Post) : Level c (c.post env p).2 := noted rfl rfl rfl rfl rfl rfl

theorem free (c : Conn) : Level c (c.free env) := by
  have hnotified : Level c (if env.onConnClose && !c.released then c.emit .onConnClose else c) := by
    split
    · exact emit c rfl
    · exact refl c
  unfold Conn.free
  dsimp only
  generalize (if env.onConnClose && !c.released then c.emit .onConnClose else c) = d at hnotified ⊢
  split
  · exact hnotified.trans (post env d .cleanup)
  · exact (hnotified.trans (post env d .cleanup)).trans (noted rfl rfl rfl rfl rfl rfl)

theorem terminate (c : Conn) : Level c (c.terminate env) := by
  unfold Conn.terminate
  split
  · exact refl c
  rename_i hlive
  have hlive : c.dead = false := eq_false_of_ne_true hlive
  have hclosed : Level c (c.stateSet .closed) :=
    ⟨rfl, rfl, rfl, .inr ⟨hlive, rfl⟩, [.state c.state .closed], rfl, List.forall_mem_singleton.mpr
      (Bool.and_eq_true_iff.mpr ⟨stateOk_closed hlive, rfl⟩)⟩
  have hstream : ∀ d : Conn, Level d { d with stream := false } := fun d => still rfl rfl rfl rfl rfl
  exact ((hclosed.trans (idleStop _)).trans (hstream _)).trans (free env _)

theorem streamWrite (c : Conn) (data : Bytes) : Level c (c.streamWrite env data).2 := by
  have hwritten : Level c (c.emit (.written data (env.write c.log))) := emit c rfl
  have hended : Level c (if (c.emit (.written data (env.write c.log))).released then
      c.emit (.written data (env.write c.log))
      else (c.emit (.written data (env.write c.log))).terminate env) := by
    split
    · exact hwritten
    · exact hwritten.trans (terminate env _)
  unfold Conn.streamWrite
  split
  · exact refl c
  dsimp only
  split
  · exact hended
  · exact hended
  · exact hwritten

theorem respondBuild (c : Conn) (resp : Response) (internalClose : Bool) :
    Level c (c.respondBuild env resp internalClose).2.2 := by
  unfold Conn.respondBuild
  split
  · exact refl c
  have halloc : Level c (c.emit (.alloc (env.alloc c.log))) := emit c rfl
  dsimp only
  split
  · exact halloc
  split
  · exact halloc
  rename_i head _
  have hhead := halloc.trans (streamWrite env (c.emit (.alloc (env.alloc c.log))) head)
  generalize (c.emit (.alloc (env.alloc c.log))).streamWrite env head = w at hhead ⊢
  have hbody := hhead.trans (streamWrite env w.2 ((resp.body.getD []).take resp.bodyLen))
  split
  · exact hhead
  split
  · split <;> exact hbody
  · exact hhead

end Level

-- ---- what holds at every moment ----

-- A request has been handed out and its response is not complete.
def Conn.busy (c : Conn) : Prop := c.state = .request ∨ c.state = .awaitResp ∨ c.state = .responding

theorem Conn.busy.notDying {c : Conn} (h : c.busy) : c.dying = false := by
  rcases h with h | h | h <;> rw [Conn.dying, h] <;> rfl

theorem Conn.busy_congr {c c' : Conn} (h : c'.state = c.state) : c'.busy ↔ c.busy := by
  rw [Conn.busy, h, Conn.busy]

theorem Conn.not_busy {c : Conn} {s : ConnState} (h : c.state = s)
    (hs : (s == .request || s == .awaitResp || s == .responding) = false) : ¬ c.busy := by
  rintro (hb | hb | hb) <;> (rw [← h, hb] at hs; cases hs)

-- A request that waits for its response closes the connection as it was asked to, and a
-- connection that was handed over is in no other state.
structure Orderly (c : Conn) : Prop where
  request : c.busy → c.closePending = !c.reqKeepAlive
  released : c.released = true → c.state = .released

namespace Orderly

variable {env : Env} {c c' : Conn}

theorem level (h : Orderly c) (hl : Level c c') : Orderly c' := by
  constructor
  · intro hbusy
    rcases hl.state with hs | ⟨-, hs⟩
    · rw [hl.closePending, hl.reqKeepAlive, h.request ((Conn.busy_congr hs).mp hbusy)]
    · exact absurd hbusy (Conn.not_busy hs rfl)
  · intro hreleased
    have hgone := h.released (hl.released ▸ hreleased)
    rcases hl.state with hs | ⟨hlive, -⟩
    · exact hs.trans hgone
    · rw [Conn.dead, hgone] at hlive
      cases hlive

-- No response is due.
theorem idle (hreleased : c.released = false) (hidle : ¬ c.busy) : Orderly c where
  request := fun hs => absurd hs hidle
  released := fun hr => by rw [hreleased] at hr; cases hr

theorem notReleased (h : Orderly c) (hstate : c.state ≠ .released) : c.released = false :=
  eq_false_of_ne_true fun hr => hstate (h.released hr)

theorem alive (h : Orderly c) (hd : c.dying = false) : c.released = false :=
  h.notReleased fun hs => by rw [Conn.dying, hs] at hd; cases hd

theorem closing (hreleased : c.released = false) : Orderly c.closeGraceful := by
  have hidle : ¬ c.closeGraceful.busy := fun hb =>
    absurd (hb.notDying.symm.trans (dying_closeGraceful c)) (by decide)
  have hkept : c.closeGraceful.released = c.released := by
    unfold Conn.closeGraceful
    dsimp only
    split
    · rfl
    · split <;> rfl
  exact idle (hkept.trans hreleased) hidle

theorem closeGraceful (h : Orderly c) : Orderly c.closeGraceful := by
  by_cases hd : c.dying = true
  · have hstill : c.closeGraceful = c := if_pos hd
    rwa [hstill]
  · exact closing (h.alive (eq_false_of_ne_true hd))

theorem parsing (env : Env) (hreleased : c.released = false) :
    Orderly ((c.stateSet .parsing).idleReset env) := by
  have hset : Orderly (c.stateSet .parsing) := idle hreleased (Conn.not_busy rfl rfl)
  exact hset.level (.idleReset env _)

theorem complete (env : Env) (hreleased : c.released = false) (wasAsync : Bool) :
    Orderly (c.responseComplete env wasAsync) := by
  have hnote : (c.emit (.completing c.state c.closePending)).released = false := hreleased
  unfold Conn.responseComplete
  dsimp only
  generalize c.emit (.completing c.state c.closePending) = d at hnote ⊢
  have hset := parsing env hnote
  split
  · exact closing hnote
  split
  · have hpost := hset.level (.post env _ .process)
    split
    · exact hpost
    · exact hpost.closeGraceful
  · exact hset

theorem internal (h : Orderly c) (status : Int) (closeIt : Bool) :
    Orderly (c.respondInternal env status closeIt) := by
  unfold Conn.respondInternal
  split
  · exact h
  rename_i hd
  dsimp only
  have hbuild := Level.respondBuild env c
    { status := status, text := none, close := false, body := none, bodyLen := 0, headers := [] } closeIt
  split
  · exact h.level hbuild
  · exact closing (hbuild.released.trans (h.alive (eq_false_of_ne_true hd)))

theorem respond (h : Orderly c) (resp : Response) : Orderly (c.respond env resp).2 := by
  unfold Conn.respond
  split
  · exact h
  rename_i hstate
  split
  · exact h
  have hbuild := Level.respondBuild env c resp false
  have hreleased : c.released = false := h.notReleased fun hs => hstate (by simp [hs])
  dsimp only
  split
  · exact h.level hbuild
  · have hmark : ∀ p : Bool, { (c.respondBuild env resp false).2.2 with closePending := p }.released = false :=
      fun _ => hbuild.released.trans hreleased
    exact complete env (hmark _) _

theorem write (h : Orderly c) (data : Option Bytes) : Orderly (c.write env data).2 := by
  unfold Conn.write
  cases data with
  | none => exact h
  | some data =>
  dsimp only
  split
  · exact h
  split
  · exact h
  have hw := h.level (.streamWrite env c data)
  split
  · exact hw
  split
  · rename_i hstate
    have hreleased := hw.notReleased fun hs => by rw [hs] at hstate; cases hstate
    refine ⟨fun _ => hw.request (.inr (.inl hstate)), fun hr => ?_⟩
    exact absurd (hr.symm.trans hreleased) (by decide)
  · exact hw.level (.still rfl rfl rfl rfl rfl)

theorem writeEnd (h : Orderly c) : Orderly (c.writeEnd env).2 := by
  unfold Conn.writeEnd
  split
  · exact h
  rename_i hstate
  exact complete env (h.notReleased fun hs => hstate (by simp [hs])) _

theorem close (h : Orderly c) : Orderly c.close := by
  unfold Conn.close
  split
  · exact h
  rename_i hd
  have hreleased : { c with closePending := true }.released = false := h.alive (eq_false_of_ne_true hd)
  exact closing hreleased

theorem release (h : Orderly c) : Orderly c.release.2 := by
  unfold Conn.release
  split
  · exact h
  split
  · exact h
  · have hset : Orderly ({ c with released := true }.stateSet .released) :=
      ⟨fun hb => absurd hb (Conn.not_busy rfl rfl), fun _ => rfl⟩
    exact hset.level (.idleStop _)

theorem call (h : Orderly c) (a : Api) : Orderly (c.call env a) := by
  have hcalled : Orderly (c.emit (.called a)) := h.level (.emit c rfl)
  unfold Conn.call
  cases a with
  | respond resp => exact (hcalled.respond resp).level (.emit _ rfl)
  | write data => exact (hcalled.write data).level (.emit _ rfl)
  | writeEnd => exact hcalled.writeEnd.level (.emit _ rfl)
  | close => exact hcalled.close.level (.emit _ rfl)
  | release => exact hcalled.release.level (.emit _ rfl)

theorem begin (h : Orderly c) (hstate : c.state = .parsing) (m : Msg) : Orderly (c.begin m) := by
  have hreleased := h.notReleased fun hs => by rw [hs] at hstate; cases hstate
  exact ⟨fun _ => rfl, fun hr => absurd (hr.symm.trans hreleased) (by decide)⟩

end Orderly

theorem Course.orderly {env : Env} {recvCap : Nat} {acts : List Act} {c : Conn}
    (h : Course env recvCap acts c) : Orderly c := by
  induction h with
  | accepted => exact .idle rfl (Conn.not_busy rfl rfl)
  | call a _ ih => exact ih.call a
  | onAccept _ _ ih => exact ih.level (.emit _ rfl)
  | opened hnew _ ih => exact .parsing env (ih.notReleased fun hs => by rw [hs] at hnew; cases hnew)
  | onRequest hstate _ _ _ _ ih => exact (ih.begin hstate _).level (.emit _ rfl)
  | onUpgrade hstate _ _ _ _ ih => exact (ih.begin hstate _).level (.emit _ rfl)
  | unheard hstate _ _ _ _ ih => exact ih.begin hstate _
  | declined hstate _ _ _ _ ih => exact (ih.begin hstate _).internal 400 true
  | internal status _ _ ih => exact ih.internal status true
  | @settled _ c hstate _ ih =>
      have hreleased := ih.notReleased fun hs => by rw [hs] at hstate; cases hstate
      have hset : Orderly (c.stateSet (if c.wrote then .responding else .awaitResp)) :=
        ⟨fun _ => ih.request (.inl hstate), fun hr => absurd (hr.symm.trans hreleased) (by decide)⟩
      exact hset.level (.idleReset env _)
  | recv b _ ih => exact ih.level (.still rfl rfl rfl rfl rfl)
  | idleStop _ ih => exact ih.level (.idleStop _)
  | idleReset _ ih => exact ih.level (.idleReset env _)
  | post _ ih => exact ih.level (.post env _ .process)
  | popped _ _ ih => exact ih.level (.still rfl rfl rfl rfl rfl)
  | closeGraceful _ ih => exact ih.closeGraceful
  | terminate _ ih => exact ih.level (.terminate env _)
  | cleanup _ ih => exact ih.level (.noted rfl rfl rfl rfl rfl rfl)

theorem Reached.orderly {env : Env} {recvCap : Nat} {c : Conn} (h : Reached env recvCap c) : Orderly c :=
  h.elim fun _ hc => hc.orderly

end Sevent.Http
