import Sevent.Chain
import Sevent.While
import Sevent.Http.Reached
import Sevent.Tcp.Acceptor

-- The HTTP server with all of its connections (http_server.c): srv_on_accept, the list that the
-- connections are on, and srv_cleanup, which walks the list while on_conn_close is told.
namespace Sevent.Http

open Sevent.Chain (Heap)

def recvBufDefault : Nat := 4096

-- ---- what sevent_ws_upgrade takes ----

namespace Conn

-- sevent_http_conn_i_detach_stream: whether there is a stream.
def detachStream (c : Conn) : Bool × Conn :=
  if !c.released then (false, c) else (c.stream, { c with stream := false })

-- sevent_http_conn_i_take_recv; once the buffer has been taken its capacity is 0.
def takeRecv (c : Conn) : Option (Bytes × Nat) × Conn :=
  if !c.released || c.recvCap == 0 then (none, c)
  else (some (c.recv, c.recvCap), { c with recv := [], recvCap := 0 })

-- conn_cleanup is posted, and run at once if the post is refused.
def discard (env : Env) (c : Conn) : Conn :=
  let (ok, c) := c.post env .cleanup
  if ok then c else c.cleanup

-- sevent_http_conn_i_destroy
def destroyShell (env : Env) (c : Conn) : Conn := if !c.released then c else c.discard env

-- Behind the release, sevent_ws_upgrade takes the stream; the buffer stays if there is no memory for
-- the WebSocket connection.
def takeOver (env : Env) (granted : Bool) (c : Conn) : Conn :=
  let (stream, c) := c.detachStream
  if !stream then c
  else (if granted then c.takeRecv.2 else c).destroyShell env

end Conn

-- ---- the server ----

-- How srv_on_accept ends.
inductive Accepting where
  | noConn
  | noBuffer
  | noStream
  -- sevent_stream_accept has failed
  | refused (rc : Int)
  | opened
  deriving DecidableEq, Repr

-- A call that on_conn_close makes, on whichever connection.
structure OnConn where
  conn : Nat
  env : Env
  api : Api

inductive Server.Event where
  | closeFd (fd : Nat)
  -- the descriptor goes to the stream of a connection
  | handed (fd conn : Nat)
  | onError (rc : Int)
  | posted (ok : Bool)
  | freed
  deriving DecidableEq, Repr

structure Server where
  recvBufSize : Nat
  idleTimeoutMs : Int
  onConnClose : Bool
  onError : Bool
  acceptor : Tcp.Acceptor
  -- the connections with their `next`; the address of the next one is `made`
  heap : Heap Conn
  conns : Option Nat
  made : Nat
  destroyed : Bool
  -- srv_cleanup waits in the loop
  posted : Bool
  freed : Bool
  log : List Server.Event

namespace Server

def create (recvBufSize : Nat) (idleTimeoutMs : Int) : Server :=
  { recvBufSize := recvBufSize, idleTimeoutMs := idleTimeoutMs, onConnClose := false, onError := false
    acceptor := Tcp.Acceptor.create, heap := fun _ => none, conns := none, made := 0, destroyed := false
    posted := false, freed := false, log := [] }

def emit (s : Server) (e : Event) : Server := { s with log := s.log ++ [e] }

-- sevent_http_server_listen; `handlers` = on_request or on_upgrade is given.
def listen (s : Server) (onConnClose onError handlers : Bool) (addr : Option Bytes) (port : Nat)
    (backlog : Int) (k : Tcp.Acceptor.Answers) : Server :=
  if !handlers then s
  else
    { s with
      onConnClose := onConnClose, onError := onError
      acceptor := s.acceptor.call (.listen addr port backlog (some 0) k) }

-- srv_on_accept; what it has allocated is freed again where it fails.
def onAccept (s : Server) (fd : Nat) : Accepting → Server
  | .noConn => s.emit (.closeFd fd)
  | .noBuffer => s.emit (.closeFd fd)
  | .noStream => s.emit (.closeFd fd)
  | .refused rc =>
      let s := s.emit (.closeFd fd)
      if s.onError then s.emit (.onError rc) else s
  | .opened =>
      let recvCap := if s.recvBufSize = 0 then recvBufDefault else s.recvBufSize
      { s.emit (.handed fd s.made) with
        heap := s.heap.insert s.made s.conns (.accepted recvCap), conns := some s.made, made := s.made + 1 }

-- The accept loop of the listener, one descriptor a turn.
def onAcceptReady (ready : List (Nat × Accepting)) (s : Server) : Server :=
  ready.foldl (fun s (fd, how) =>
    if s.acceptor.destroyed || s.acceptor.fd.isNone then s
    else { s with acceptor := s.acceptor.step (.readable [(fd, [])]) }.onAccept fd how) s

def onConn (s : Server) (a : Nat) (f : Conn → Conn) : Server :=
  match s.heap.item a with
  | none => s
  | some c => { s with heap := s.heap.store a (f c) }

def connUnlink (s : Server) (a : Nat) : Server :=
  let (heap, conns) := Heap.unlink (s.made + 1) s.heap s.conns a
  { s with heap := heap, conns := conns }

-- The callbacks and the configuration of the server; the layers below answer as they like.
def under (s : Server) (env : Env) : Env :=
  { env with onConnClose := s.onConnClose, idleTimeoutMs := s.idleTimeoutMs }

end Server

def Event.cleanup : Event → Bool
  | .posted .cleanup _ => true
  | _ => false

-- How often conn_cleanup has been posted, or its post refused.
def Conn.cleanups (c : Conn) : Nat := c.log.countP Event.cleanup

-- conn_free and sevent_http_conn_i_release take the connection off the list.
def Conn.leaves (c c' : Conn) : Bool := decide (c.cleanups < c'.cleanups) || (!c.released && c'.released)

namespace Server

-- A connection changes nothing but itself and the list. What its callbacks call on other connections is
-- a step of its own: there is no other state that two connections share.
def stepConn (s : Server) (a : Nat) (env : Env) (st : Step) : Server :=
  match s.heap.item a with
  | none => s
  | some c =>
      let c' := c.step (s.under env) st
      let s := { s with heap := s.heap.store a c' }
      if c.leaves c' then s.connUnlink a else s

def calls (s : Server) (script : List OnConn) : Server :=
  script.foldl (fun s k => s.stepConn k.conn k.env (.call k.api)) s

-- The surroundings of one srv_cleanup: the posts, and the calls that on_conn_close makes, given all that
-- has happened.
structure Walk where
  env : Env
  calls : Server → List OnConn
  acceptorPost : Bool

-- The user is told of a connection that has not been handed over.
def notify (w : Walk) (s : Server) (a : Nat) : Server :=
  if s.onConnClose && !(s.heap.item a).any (·.released) then
    let s := s.onConn a (·.emit .onConnClose)
    s.calls (w.calls s)
  else s

-- One turn of srv_cleanup, without the pointer to the next connection.
def visit (w : Walk) (s : Server) (a : Nat) : Server :=
  let s := s.onConn a fun c => (c.stateSet .closed).idleStop
  let s := s.notify w a
  s.onConn a fun c => { c with stream := false }.discard w.env

def cleanupTurn (w : Walk) : Server × Option Nat → Server ⊕ (Server × Option Nat)
  | (s, none) => .inl s
  -- `next` is read before on_conn_close is told
  | (s, some a) => .inr (s.visit w a, s.heap.next a)

def srvCleanup (w : Walk) (s : Server) : Server :=
  let s := (While.run (cleanupTurn w) (s.made + 1) (s, s.conns)).getD s
  { s with conns := none, acceptor := s.acceptor.call (.destroy w.acceptorPost), freed := true }.emit .freed

-- sevent_http_server_destroy
def destroy (w : Walk) (postOk : Bool) (s : Server) : Server :=
  if s.destroyed then s
  else
    let s := { s with destroyed := true, posted := postOk }.emit (.posted postOk)
    if postOk then s else s.srvCleanup w

inductive Input where
  | listen (onConnClose onError handlers : Bool) (addr : Option Bytes) (port : Nat) (backlog : Int)
      (k : Tcp.Acceptor.Answers)
  | readable (ready : List (Nat × Accepting))
  | conn (a : Nat) (env : Env) (st : Step)
  | takeOver (a : Nat) (env : Env) (granted : Bool)
  | destroy (w : Walk) (postOk : Bool)
  -- srv_cleanup runs from the queue of posts; acc_cleanup does
  | cleanup (w : Walk)
  | acceptorPosts

-- Nothing is called on the server after sevent_http_server_destroy. Tasks of different connections run in
-- any order.
def step (s : Server) : Input → Server
  | .listen onConnClose onError handlers addr port backlog k =>
      if s.destroyed then s else s.listen onConnClose onError handlers addr port backlog k
  | .readable ready => if s.acceptor.ioHandle.isSome then s.onAcceptReady ready else s
  | .conn a env st => s.stepConn a env st
  | .takeOver a env granted => s.onConn a (·.takeOver env granted)
  | .destroy w postOk => s.destroy w postOk
  | .cleanup w => if s.posted then { s with posted := false }.srvCleanup w else s
  | .acceptorPosts => { s with acceptor := s.acceptor.step .posts }

def run (s : Server) (inputs : List Input) : Server := inputs.foldl step s

end Server

-- ---- the life of one connection ----

-- The news that is broken to the user and to the allocator.
def Event.fateful : Event → Bool
  | .onConnClose => true
  | .posted .cleanup _ => true
  | .freed => true
  | _ => false

def fate (log : List Event) : List Event := log.filter Event.fateful

theorem fate_concat (log : List Event) (e : Event) :
    fate (log ++ [e]) = fate log ++ if e.fateful then [e] else [] := by
  rw [fate, List.filter_append, List.filter_singleton, Bool.cond_eq_ite]
  rfl

-- Nothing of it, and the stream and the memory are where they were.
structure Calm (c c' : Conn) : Prop where
  released : c'.released = c.released
  stream : c'.stream = c.stream
  freed : c'.freed = c.freed
  pending : c'.posts.count .cleanup = c.posts.count .cleanup
  fate : fate c'.log = fate c.log

namespace Calm

variable {c c' : Conn}

theorem refl (c : Conn) : Calm c c := ⟨rfl, rfl, rfl, rfl, rfl⟩

theorem trans {a b c : Conn} (h : Calm a b) (h' : Calm b c) : Calm a c :=
  ⟨h'.released.trans h.released, h'.stream.trans h.stream, h'.freed.trans h.freed, h'.pending.trans h.pending,
    h'.fate.trans h.fate⟩

theorem note {e : Event} (he : e.fateful = false) (hreleased : c'.released = c.released)
    (hstream : c'.stream = c.stream) (hfreed : c'.freed = c.freed)
    (hpending : c'.posts.count .cleanup = c.posts.count .cleanup) (hlog : c'.log = c.log ++ [e]) : Calm c c' := by
  refine ⟨hreleased, hstream, hfreed, hpending, ?_⟩
  rw [hlog, fate_concat, he, if_neg (by decide), List.append_nil]

theorem emit (c : Conn) {e : Event} (he : e.fateful = false) : Calm c (c.emit e) := note he rfl rfl rfl rfl rfl

theorem stateSet (c : Conn) (next : ConnState) : Calm c (c.stateSet next) := note rfl rfl rfl rfl rfl rfl

theorem idleStop (c : Conn) : Calm c c.idleStop := by
  unfold Conn.idleStop
  split
  · exact note rfl rfl rfl rfl rfl rfl
  · exact refl c

theorem idleReset (env : Env) (c : Conn) : Calm c (c.idleReset env) := by
  unfold Conn.idleReset
  split
  · exact refl c
  · exact (idleStop c).trans (note rfl rfl rfl rfl rfl rfl)

theorem process (env : Env) (c : Conn) : Calm c (c.post env .process).2 := by
  refine note rfl rfl rfl rfl ?_ rfl
  unfold Conn.post
  dsimp only
  split
  · rw [List.count_append]
    rfl
  · rfl

end Calm

-- A connection that has left, behind what on_conn_close has been told: its memory is released once, by
-- the task that was posted for it or at once.
inductive Parted (told : List Event) (c : Conn) : Prop
  | held (hstream : c.stream = true) (hfreed : c.freed = false) (hpending : c.posts.count .cleanup = 0)
      (hfate : fate c.log = told)
  | waiting (hstream : c.stream = false) (hfreed : c.freed = false) (hpending : c.posts.count .cleanup = 1)
      (hfate : fate c.log = told ++ [.posted .cleanup true])
  | gone (ok : Bool) (hstream : c.stream = false) (hfreed : c.freed = true)
      (hpending : c.posts.count .cleanup = 0) (hfate : fate c.log = told ++ [.posted .cleanup ok, .freed])

def told (heard : Bool) : List Event := if heard then [.onConnClose] else []

inductive Life (heard : Bool) (c : Conn) : Prop
  | up (hlive : c.dead = false) (hreleased : c.released = false) (hparted : Parted [] c) (hstream : c.stream = true)
  | closed (hstate : c.state = .closed) (hreleased : c.released = false) (htimer : c.idleTimer = false)
      (hstream : c.stream = false) (hparted : Parted (told heard) c)
  | released (hstate : c.state = .released) (hreleased : c.released = true) (htimer : c.idleTimer = false)
      (hparted : Parted [] c)

section

variable {env : Env} {heard : Bool} {news : List Event} {c c' : Conn}

theorem Parted.calm (h : Parted news c) (hc : Calm c c') : Parted news c' := by
  cases h with
  | held hstream hfreed hpending hfate =>
      exact .held (hc.stream.trans hstream) (hc.freed.trans hfreed) (hc.pending.trans hpending) (hc.fate.trans hfate)
  | waiting hstream hfreed hpending hfate =>
      exact .waiting (hc.stream.trans hstream) (hc.freed.trans hfreed) (hc.pending.trans hpending)
        (hc.fate.trans hfate)
  | gone ok hstream hfreed hpending hfate =>
      exact .gone ok (hc.stream.trans hstream) (hc.freed.trans hfreed) (hc.pending.trans hpending)
        (hc.fate.trans hfate)

theorem Life.isUp (h : Life heard c) (hlive : c.dead = false) :
    c.released = false ∧ Parted [] c ∧ c.stream = true := by
  cases h with
  | up _ hreleased hparted hstream => exact ⟨hreleased, hparted, hstream⟩
  | closed hstate =>
      rw [Conn.dead, hstate] at hlive
      cases hlive
  | released hstate =>
      rw [Conn.dead, hstate] at hlive
      cases hlive

theorem Life.stopped (h : Life heard c) (hdead : c.dead = true) : c.idleTimer = false := by
  cases h with
  | up hlive => cases hdead.symm.trans hlive
  | closed _ _ htimer => exact htimer
  | released _ _ htimer => exact htimer

theorem Life.stays (h : Life heard c) (hc : Calm c c') (hlive : c.dead = false) (hlive' : c'.dead = false) :
    Life heard c' := by
  obtain ⟨hreleased, hparted, hstream⟩ := h.isUp hlive
  exact .up hlive' (hc.released.trans hreleased) (hparted.calm hc) (hc.stream.trans hstream)

theorem Life.calm (h : Life heard c) (hc : Calm c c') (hstate : c'.state = c.state)
    (htimer : c'.idleTimer = c.idleTimer) : Life heard c' := by
  have hdead : c'.dead = c.dead := by rw [Conn.dead, hstate, Conn.dead]
  cases h with
  | up hlive hreleased hparted hstream =>
      exact .up (hdead.trans hlive) (hc.released.trans hreleased) (hparted.calm hc) (hc.stream.trans hstream)
  | closed hclosed hreleased hstopped hstream hparted =>
      exact .closed (hstate.trans hclosed) (hc.released.trans hreleased) (htimer.trans hstopped)
        (hc.stream.trans hstream) (hparted.calm hc)
  | released hgone hreleased hstopped hparted =>
      exact .released (hstate.trans hgone) (hc.released.trans hreleased) (htimer.trans hstopped) (hparted.calm hc)

theorem Life.emit (h : Life heard c) {e : Event} (he : e.fateful = false) : Life heard (c.emit e) :=
  h.calm (.emit c he) rfl rfl

theorem Parted.discard (hfreed : c.freed = false) (hpending : c.posts.count .cleanup = 0)
    (hfate : fate c.log = news) (hstream : c.stream = false) : Parted news (c.discard env) := by
  have hposted : fate (c.log ++ [.posted .cleanup (env.post c.log)]) =
      news ++ [.posted .cleanup (env.post c.log)] := by
    rw [fate_concat, hfate]
    rfl
  unfold Conn.discard
  dsimp only
  cases hok : env.post c.log with
  | true =>
      have hyes : (c.post env .cleanup).1 = true := hok
      rw [if_pos hyes]
      refine .waiting hstream hfreed ?_ ?_
      · show (if env.post c.log then c.posts ++ [.cleanup] else c.posts).count .cleanup = 1
        rw [if_pos hok, List.count_append, hpending]
        rfl
      · rw [hok] at hposted
        show fate (c.log ++ [.posted .cleanup (env.post c.log)]) = _
        rw [hok, hposted]
  | false =>
      have hno : (c.post env .cleanup).1 = false := hok
      rw [if_neg (by rw [hno]; decide)]
      refine .gone false hstream rfl ?_ ?_
      · show (if env.post c.log then c.posts ++ [.cleanup] else c.posts).count .cleanup = 0
        rw [if_neg (by rw [hok]; decide), hpending]
      · show fate (c.log ++ [.posted .cleanup (env.post c.log)] ++ [.freed]) = _
        rw [fate_concat, hposted, hok, List.append_assoc]
        rfl

theorem Conn.discard_same (env : Env) (c : Conn) : (c.discard env).state = c.state ∧
    (c.discard env).released = c.released ∧ (c.discard env).idleTimer = c.idleTimer ∧
    (c.discard env).stream = c.stream := by
  unfold Conn.discard
  dsimp only
  split <;> exact ⟨rfl, rfl, rfl, rfl⟩

theorem Conn.discard_grows (env : Env) (c : Conn) : c.log <+: (c.discard env).log := by
  unfold Conn.discard
  dsimp only
  split
  · exact List.prefix_append _ _
  · exact (List.prefix_append _ _).trans (List.prefix_append _ _)

theorem Parted.free (hfreed : c.freed = false) (hpending : c.posts.count .cleanup = 0)
    (hfate : fate c.log = []) (hstream : c.stream = false) (hreleased : c.released = false) :
    Parted (told env.onConnClose) (c.free env) := by
  unfold Conn.free
  cases hheard : env.onConnClose with
  | true =>
      have hnotified : fate (c.emit .onConnClose).log = told true := by
        rw [Conn.emit, fate_concat, hfate]
        rfl
      rw [Bool.true_and, hreleased, if_pos (by decide)]
      exact Parted.discard (c := c.emit .onConnClose) hfreed hpending hnotified hstream
  | false =>
      rw [Bool.false_and, if_neg (by decide)]
      exact Parted.discard hfreed hpending hfate hstream

theorem Parted.unsettled (h : Parted news c) (hstream : c.stream = true) :
    c.freed = false ∧ c.posts.count .cleanup = 0 ∧ fate c.log = news := by
  cases h with
  | held _ hfreed hpending hfate => exact ⟨hfreed, hpending, hfate⟩
  | waiting hno => cases hno.symm.trans hstream
  | gone _ hno => cases hno.symm.trans hstream

end

section

variable {env : Env} {heard : Bool} {c : Conn}

theorem Conn.free_same (env : Env) (c : Conn) :
    (c.free env).idleTimer = c.idleTimer ∧ (c.free env).stream = c.stream := by
  have hnotified : (if env.onConnClose && !c.released then c.emit .onConnClose else c).idleTimer = c.idleTimer ∧
      (if env.onConnClose && !c.released then c.emit .onConnClose else c).stream = c.stream := by
    split <;> exact ⟨rfl, rfl⟩
  unfold Conn.free
  dsimp only
  generalize (if env.onConnClose && !c.released then c.emit .onConnClose else c) = d at hnotified ⊢
  split <;> exact hnotified

theorem Conn.live_of_dying (h : c.dying = false) : c.dead = false := by
  unfold Conn.dying at h
  unfold Conn.dead
  revert h
  cases c.state <;> decide

theorem Conn.idleStop_timer (c : Conn) : c.idleStop.idleTimer = false := by
  unfold Conn.idleStop
  split
  · rfl
  · rename_i h
    exact eq_false_of_ne_true h

theorem idleReset_dead (env : Env) (c : Conn) : (c.idleReset env).dead = c.dead := by
  rw [Conn.dead, idleReset_state, Conn.dead]

theorem Life.idleReset (h : Life heard c) (hlive : c.dead = false) : Life heard (c.idleReset env) :=
  h.stays (.idleReset env c) hlive ((idleReset_dead env c).trans hlive)

-- A connection that goes on in another state, its timer armed anew.
theorem Life.enter (h : Life heard c) (hlive : c.dead = false) {next : ConnState}
    (hnext : (c.stateSet next).dead = false) : Life heard ((c.stateSet next).idleReset env) :=
  (h.stays (.stateSet c next) hlive hnext).idleReset hnext

theorem Life.terminate (h : Life env.onConnClose c) : Life env.onConnClose (c.terminate env) := by
  unfold Conn.terminate
  split
  · exact h
  rename_i hlive
  obtain ⟨hreleased, hparted, hstream⟩ := h.isUp (eq_false_of_ne_true hlive)
  obtain ⟨hfreed, hpending, hfate⟩ := hparted.unsettled hstream
  have hcalm : Calm c (c.stateSet .closed).idleStop := (Calm.stateSet c _).trans (.idleStop _)
  have htimer := Conn.idleStop_timer (c.stateSet .closed)
  have hstate := idleStop_state (c.stateSet .closed)
  generalize (c.stateSet .closed).idleStop = d at hcalm htimer hstate ⊢
  have hparted' : Parted (told env.onConnClose) (({ d with stream := false } : Conn).free env) :=
    .free (hcalm.freed.trans hfreed) (hcalm.pending.trans hpending) (hcalm.fate.trans hfate) rfl
      (hcalm.released.trans hreleased)
  obtain ⟨hsameTimer, hsameStream⟩ := Conn.free_same env { d with stream := false }
  refine .closed ((Conn.free_state _).trans hstate) ?_ (hsameTimer.trans htimer) hsameStream hparted'
  exact (Level.free env _).released.trans (hcalm.released.trans hreleased)

theorem Life.streamWrite (h : Life env.onConnClose c) (data : Bytes) :
    Life env.onConnClose (c.streamWrite env data).2 := by
  have hwritten : Life env.onConnClose (c.emit (.written data (env.write c.log))) := h.emit rfl
  unfold Conn.streamWrite
  split
  · exact h
  dsimp only
  split
  · dsimp only
    split
    · exact hwritten
    · exact hwritten.terminate
  · dsimp only
    split
    · exact hwritten
    · exact hwritten.terminate
  · exact hwritten

theorem Event.plain.uneventful {e : Event} (he : e.plain = true) : e.fateful = false := by
  cases e <;> first | rfl | cases he

-- As long as http_state_set has had nothing to report.
theorem life_upheld (hheard : env.onConnClose = heard) : Upholds env fun c => Legal c.log → Life heard c where
  note := fun he h hlegal => (h (hlegal.earlier (List.prefix_append _ _))).emit (Event.plain.uneventful he)
  recv := fun _ h hlegal => (h hlegal).calm ⟨rfl, rfl, rfl, rfl, rfl⟩ rfl rfl
  flags := fun _ _ h hlegal => (h hlegal).calm ⟨rfl, rfl, rfl, rfl, rfl⟩ rfl rfl
  write := fun {c} data _ h hlegal => by
    subst hheard
    exact (h (hlegal.earlier (Level.streamWrite env c data).grows)).streamWrite data
  closeGraceful := fun {c} h hlegal => by
    have hlife := h (hlegal.earlier (Conn.closeGraceful_grows List.prefix_rfl))
    unfold Conn.closeGraceful
    split
    · exact hlife
    rename_i hd
    have hset : Life heard (c.stateSet .closing) :=
      hlife.stays (.stateSet c _) (Conn.live_of_dying (eq_false_of_ne_true hd)) rfl
    dsimp only
    split
    · exact hset.emit rfl
    · exact hset
  parsed := fun {c} _ hreleased _ _ h hlegal => by
    have hset : Legal (c.stateSet .parsing).log := hlegal.earlier (Conn.idleReset_grows List.prefix_rfl)
    have hlife := h (hset.earlier (List.prefix_append _ _))
    have hok : stateOk c.state .parsing = true := hset _ (List.mem_append_right _ List.mem_cons_self)
    have hlive : c.dead = false := by
      unfold Conn.dead
      revert hok
      cases c.state <;> decide
    exact hlife.enter hlive rfl
  streaming := fun {c} hstate h hlegal => by
    have hlife := h (hlegal.earlier (List.prefix_append _ _))
    exact hlife.stays (.stateSet c _) (by rw [Conn.dead, hstate]; rfl) rfl
  post := fun {c} h hlegal =>
    (h (hlegal.earlier (List.prefix_append _ _))).calm (.process env c) rfl rfl
  release := fun {c} hstate h hlegal => by
    have hlife := h (hlegal.earlier (Conn.idleStop_grows (List.prefix_append _ _)))
    obtain ⟨-, hparted, hstream⟩ := hlife.isUp (by rw [Conn.dead, hstate]; rfl)
    have hmark : Parted [] { c with released := true } := by
      obtain ⟨hfreed, hpending, hfate⟩ := hparted.unsettled hstream
      exact .held hstream hfreed hpending hfate
    have hcalm : Calm { c with released := true } (({ c with released := true } : Conn).stateSet .released).idleStop :=
      (Calm.stateSet _ _).trans (.idleStop _)
    exact .released (idleStop_state _) (hcalm.released.trans rfl) (Conn.idleStop_timer _) (hmark.calm hcalm)
  begin := fun {c m} hstate h hlegal => by
    have hlife := h (hlegal.earlier (List.prefix_append _ _))
    have hcalm : Calm c (c.begin m) := .note rfl rfl rfl rfl rfl rfl
    exact hlife.stays hcalm (by rw [Conn.dead, hstate]; rfl) rfl
  settled := fun {c} hstate h hlegal => by
    have hlife := h ((hlegal.earlier (Conn.idleReset_grows List.prefix_rfl)).earlier (List.prefix_append _ _))
    refine hlife.enter (by rw [Conn.dead, hstate]; rfl) ?_
    show ((if c.wrote then ConnState.responding else ConnState.awaitResp) == ConnState.closed || _ == _) = false
    split <;> rfl
  reset := fun {c} hd h hlegal => by
    have hlife := h (hlegal.earlier (Conn.idleReset_grows List.prefix_rfl))
    exact hlife.idleReset (Conn.live_of_dying hd)

end

-- A call on a connection that has no request to answer can only close it.
theorem call_idle (env : Env) {c : Conn} (hidle : ¬ c.busy) (a : Api) :
    (∃ rc, c.call env a = (c.emit (.called a)).emit (.returned rc)) ∨
      c.dying = false ∧ c.call env a = (c.emit (.called .close)).close.emit (.returned Err.success) := by
  have hno : c.state ≠ .request ∧ c.state ≠ .awaitResp ∧ c.state ≠ .responding :=
    ⟨fun h => hidle (.inl h), fun h => hidle (.inr (.inl h)), fun h => hidle (.inr (.inr h))⟩
  cases a with
  | respond resp => exact .inl ⟨Err.inval, by simp [Conn.call, Conn.respond, Conn.emit, hno.1, hno.2.1]⟩
  | write data =>
      left
      cases data with
      | none => exact ⟨Err.inval, rfl⟩
      | some data => exact ⟨Err.inval, by simp [Conn.call, Conn.write, Conn.emit, hno.1, hno.2.1, hno.2.2]⟩
  | writeEnd => exact .inl ⟨Err.inval, by simp [Conn.call, Conn.writeEnd, Conn.emit, hno.1, hno.2.2]⟩
  | close =>
      cases hd : c.dying with
      | false => exact .inr ⟨rfl, rfl⟩
      | true =>
          have hstay : (c.emit (.called .close)).close = c.emit (.called .close) := if_pos hd
          exact .inl ⟨Err.success, congrArg (·.emit (.returned Err.success)) hstay⟩
  | release =>
      left
      refine ⟨Err.inval, ?_⟩
      have hstay : (c.emit (.called .release)).release = (Err.inval, c.emit (.called .release)) := by
        unfold Conn.release
        split
        · rfl
        · exact if_pos hno.1
      exact congrArg (fun r : Int × Conn => r.2.emit (.returned r.1)) hstay

theorem idle_of_dead {c : Conn} (hdead : c.dead = true) : ¬ c.busy := by
  intro hbusy
  have hlive := Conn.live_of_dying hbusy.notDying
  cases hdead.symm.trans hlive

theorem closing_of_close {c : Conn} (hd : c.dying = false) : c.close.state = .closing := by
  have hopen : ¬ ({ c with closePending := true } : Conn).dying = true := by
    show ¬ c.dying = true
    rw [hd]
    decide
  unfold Conn.close Conn.closeGraceful
  rw [if_neg (by rw [hd]; decide), if_neg hopen]
  dsimp only
  split <;> rfl

-- on_accept is told of a connection that is not open yet; it can turn it down.
theorem calls_early (env : Env) (script : List Api) {c : Conn} (hc : c.state = .new ∨ c.state = .closing) :
    (c.calls env script).state = .new ∨ (c.calls env script).state = .closing := by
  unfold Conn.calls
  induction script generalizing c with
  | nil => exact hc
  | cons a rest ih =>
      refine ih ?_
      show (c.call env a).state = .new ∨ (c.call env a).state = .closing
      have hidle : ¬ c.busy := by
        rcases hc with h | h <;> exact Conn.not_busy h rfl
      rcases call_idle env hidle a with ⟨rc, hcall⟩ | ⟨hd, hcall⟩
      · rw [hcall]
        exact hc
      · right
        rw [hcall]
        exact closing_of_close hd

section

variable {env : Env} {heard : Bool} {c : Conn}

theorem Life.idleStop (h : Life heard c) : Life heard c.idleStop := by
  by_cases hlive : c.dead = false
  · refine h.stays (.idleStop c) hlive ?_
    rw [Conn.dead, idleStop_state]
    exact hlive
  · have htimer := h.stopped (eq_true_of_ne_false hlive)
    unfold Conn.idleStop
    rwa [if_neg (by rw [htimer]; decide)]

theorem Parted.popped {news : List Event} (h : Parted news c) {rest : List Post} (hposts : c.posts = .cleanup :: rest) :
    Parted news ({ c with posts := rest } : Conn).cleanup ∧ c.stream = false := by
  cases h with
  | held _ _ hpending => simp [hposts] at hpending
  | waiting hstream _ hpending hfate =>
      refine ⟨.gone true hstream rfl ?_ ?_, hstream⟩
      · show rest.count .cleanup = 0
        simpa [hposts] using hpending
      · show fate (c.log ++ [.freed]) = _
        rw [fate_concat, hfate, List.append_assoc]
        rfl
  | gone _ _ _ hpending => simp [hposts] at hpending

theorem Life.cleanup (h : Life heard c) {rest : List Post} (hposts : c.posts = .cleanup :: rest) :
    Life heard ({ c with posts := rest } : Conn).cleanup := by
  cases h with
  | up _ _ hparted hstream => cases hstream.symm.trans (hparted.popped hposts).2
  | closed hstate hreleased htimer hstream hparted =>
      exact .closed hstate hreleased htimer hstream (hparted.popped hposts).1
  | released hstate hreleased htimer hparted => exact .released hstate hreleased htimer (hparted.popped hposts).1

theorem Life.onOpen (hheard : env.onConnClose = heard) (hnew : c.state = .new)
    (h : Legal c.log → Life heard c) (hlegal : Legal (c.onOpen env).log) : Life heard (c.onOpen env) := by
  have hafter : ∀ d : Conn, d.state = .new ∨ d.state = .closing → (Legal d.log → Life heard d) →
      Legal (if d.dying then d.idleReset env else (d.stateSet .parsing).idleReset env).log →
      Life heard (if d.dying then d.idleReset env else (d.stateSet .parsing).idleReset env) := by
    intro d hd hlife hlegal
    have hlive : d.dead = false := by
      rcases hd with hd | hd <;> rw [Conn.dead, hd] <;> rfl
    by_cases hdying : d.dying = true
    · rw [if_pos hdying] at hlegal ⊢
      exact (hlife (hlegal.earlier (Conn.idleReset_grows List.prefix_rfl))).idleReset hlive
    · rw [if_neg hdying] at hlegal ⊢
      have hset := hlegal.earlier (Conn.idleReset_grows List.prefix_rfl)
      exact (hlife (hset.earlier (List.prefix_append _ _))).enter hlive rfl
  unfold Conn.onOpen at hlegal ⊢
  by_cases hreleased : c.released = true
  · rw [if_pos hreleased] at hlegal ⊢
    exact h hlegal
  rw [if_neg hreleased] at hlegal ⊢
  cases haccept : env.onAccept with
  | none =>
      simp only [haccept] at hlegal ⊢
      exact hafter c (.inl hnew) h hlegal
  | some cb =>
      simp only [haccept] at hlegal ⊢
      refine hafter _ (calls_early env _ (.inl hnew)) ?_ hlegal
      refine (life_upheld hheard).serves.calls (cb (c.emit .onAccept).log) (c := c.emit .onAccept) fun hnoted => ?_
      exact (h (hnoted.earlier (List.prefix_append _ _))).emit rfl

theorem Life.step (hheard : env.onConnClose = heard) (st : Step) (h : Legal c.log → Life heard c)
    (hlegal : Legal (c.step env st).log) : Life heard (c.step env st) := by
  have hserves := (life_upheld hheard).serves
  have hlife := h (hlegal.earlier (Conn.step_grows st List.prefix_rfl))
  have hterminate : Life heard (c.terminate env) := by
    subst hheard
    exact hlife.terminate
  have hclose : Life heard (c.onClose env) := by
    unfold Conn.onClose
    split
    · exact hlife
    · exact hterminate
  cases st with
  | opened =>
      simp only [Conn.step] at hlegal ⊢
      split at hlegal
      · rename_i hnew
        rw [if_pos hnew]
        exact .onOpen hheard (by simpa using (Bool.and_eq_true_iff.mp hnew).2) h hlegal
      · rename_i hno
        rw [if_neg hno]
        exact hlife
  | data d =>
      simp only [Conn.step] at hlegal ⊢
      split at hlegal
      · rename_i hdata
        rw [if_pos hdata]
        exact hserves.onData d h hlegal
      · rename_i hno
        rw [if_neg hno]
        exact hlife
  | eof =>
      simp only [Conn.step]
      split
      · exact hclose
      · exact hlife
  | error =>
      simp only [Conn.step]
      split
      · exact hclose
      · exact hlife
  | idleTimeout =>
      simp only [Conn.step]
      split
      · unfold Conn.onIdleTimeout
        dsimp only
        split
        · subst hheard
          exact hlife.idleStop.terminate
        · exact hlife.idleStop
      · exact hlife
  | post =>
      simp only [Conn.step] at hlegal ⊢
      split
      · exact hlife
      · rename_i rest hposts
        simp only [hposts] at hlegal
        refine hserves.processPost (c := { c with posts := rest }) (fun hlegal => ?_) hlegal
        exact (h hlegal).calm ⟨rfl, rfl, rfl, by rw [hposts]; rfl, rfl⟩ rfl rfl
      · rename_i rest hposts
        exact hlife.cleanup hposts
  | call a =>
      simp only [Conn.step] at hlegal ⊢
      split at hlegal
      · rename_i hfreed
        rw [if_pos hfreed]
        exact hlife
      · rename_i hno
        rw [if_neg hno]
        exact hserves.call a h hlegal

end

-- ---- leaving ----

theorem fate_cleanups (c : Conn) : c.cleanups = (fate c.log).countP Event.cleanup := by
  rw [fate, List.countP_filter, Conn.cleanups]
  refine List.countP_congr fun e _ => ?_
  cases e with
  | posted p ok => cases p <;> simp [Event.cleanup, Event.fateful]
  | _ => simp [Event.cleanup, Event.fateful]

theorem Conn.leaves_same {c c' : Conn} (hreleased : c'.released = c.released) (hcleanups : c'.cleanups = c.cleanups) :
    c.leaves c' = false := by
  rw [Conn.leaves, hreleased, hcleanups]
  simp

section

variable {env : Env} {heard : Bool} {c c' : Conn}

theorem Life.cleanups_live (h : Life heard c) (hlive : c.dead = false) : c.cleanups = 0 := by
  obtain ⟨-, hparted, hstream⟩ := h.isUp hlive
  obtain ⟨-, -, hfate⟩ := hparted.unsettled hstream
  rw [fate_cleanups, hfate]
  rfl

-- Who dies leaves the list, and nobody else does.
theorem Life.leaves_iff (h : Life heard c) (hlive : c.dead = false) (h' : Life heard c') :
    c.leaves c' = c'.dead := by
  have hzero := h.cleanups_live hlive
  obtain ⟨hreleased, -, -⟩ := h.isUp hlive
  cases h' with
  | up hlive' hreleased' hparted hstream =>
      obtain ⟨-, -, hfate⟩ := hparted.unsettled hstream
      rw [hlive']
      refine Conn.leaves_same (hreleased'.trans hreleased.symm) ?_
      rw [hzero, fate_cleanups, hfate]
      rfl
  | closed hstate _ _ hstream hparted =>
      have hone : 0 < c'.cleanups := by
        rw [fate_cleanups]
        cases hparted with
        | held hno => cases hno.symm.trans hstream
        | waiting _ _ _ hfate =>
            rw [hfate, List.countP_append]
            exact Nat.lt_add_left _ Nat.zero_lt_one
        | gone ok _ _ _ hfate =>
            rw [hfate, List.countP_append]
            exact Nat.lt_add_left _ Nat.zero_lt_one
      rw [Conn.leaves, hzero, Conn.dead, hstate]
      simp [hone]
  | released hstate hreleased' =>
      rw [Conn.leaves, hreleased, hreleased', Conn.dead, hstate]
      simp

theorem dead_call (env : Env) (hdead : c.dead = true) (a : Api) :
    ∃ rc, c.call env a = (c.emit (.called a)).emit (.returned rc) := by
  rcases call_idle env (idle_of_dead hdead) a with h | ⟨hd, -⟩
  · exact h
  · cases hdead.symm.trans (Conn.live_of_dying hd)

theorem cleanups_emit (c : Conn) {e : Event} (he : e.cleanup = false) : (c.emit e).cleanups = c.cleanups := by
  rw [Conn.cleanups, Conn.emit, List.countP_append, List.countP_singleton, he]
  rfl

-- Nothing happens any more to a connection that has left.
theorem Life.step_gone (h : Life heard c) (hdead : c.dead = true) (st : Step) :
    (c.step env st).state = c.state ∧ c.leaves (c.step env st) = false := by
  have hsame : ∀ d : Conn, d = c → d.state = c.state ∧ c.leaves d = false := by
    rintro d rfl
    exact ⟨rfl, Conn.leaves_same rfl rfl⟩
  have hdying : c.dying = true := by
    by_contra hno
    cases hdead.symm.trans (Conn.live_of_dying (eq_false_of_ne_true hno))
  have hnew : (c.state == .new) = false := by
    cases h with
    | up hlive => cases hdead.symm.trans hlive
    | closed hstate => rw [hstate]; rfl
    | released hstate => rw [hstate]; rfl
  have htimer := h.stopped hdead
  have hreport : (c.stream && !c.released) = false := by
    cases h with
    | up hlive => cases hdead.symm.trans hlive
    | closed _ _ _ hstream => rw [hstream]; rfl
    | released _ hreleased => rw [hreleased]; exact Bool.and_false _
  cases st with
  | opened => exact hsame _ (if_neg (by rw [hnew, Bool.and_false]; decide))
  | data d => exact hsame _ (if_neg (by simp [hreport]))
  | eof => exact hsame _ (if_neg (by rw [hreport]; decide))
  | error => exact hsame _ (if_neg (by rw [hreport]; decide))
  | idleTimeout => exact hsame _ (if_neg (by rw [htimer]; decide))
  | post =>
      simp only [Conn.step]
      split
      · exact hsame _ rfl
      · rename_i rest _
        have hstay : ({ c with posts := rest } : Conn).processPost env = { c with posts := rest } := if_pos hdying
        rw [hstay]
        exact ⟨rfl, Conn.leaves_same rfl rfl⟩
      · rename_i rest _
        exact ⟨rfl, Conn.leaves_same rfl (cleanups_emit c rfl)⟩
  | call a =>
      simp only [Conn.step]
      split
      · exact hsame _ rfl
      · obtain ⟨rc, hcall⟩ := dead_call env hdead a
        rw [hcall]
        exact ⟨rfl, Conn.leaves_same rfl ((cleanups_emit _ rfl).trans (cleanups_emit c rfl))⟩

end

-- ---- the list ----

namespace Server

-- A connection that srv_cleanup is about to take down: on_conn_close has been told, nothing else.
structure Midway (heard : Bool) (c : Conn) : Prop where
  state : c.state = .closed
  parted : Parted (told heard) c
  stream : c.stream = true
  timer : c.idleTimer = false
  released : c.released = false

-- `seen` are the connections that srv_cleanup has walked past, `cur` is the one it is at, and the list
-- goes on with `l`: these are the connections that have not left.
structure Listed (heard : Bool) (seen : List Nat) (cur : Option Nat) (l : List Nat) (s : Server) : Prop where
  path : s.heap.Path s.conns (seen ++ l)
  falls : s.heap.Falls
  made : ∀ a, (s.heap.item a).isSome ↔ a < s.made
  callback : 0 < s.made → s.onConnClose = heard
  life : ∀ a c, s.heap.item a = some c → cur ≠ some a → Life heard c
  midway : ∀ a c, s.heap.item a = some c → cur = some a → Midway heard c
  here : ∀ a c, s.heap.item a = some c → (c.dead = false ↔ a ∈ l)

-- No illegal transition has been reported so far, of any connection.
def Legal (s : Server) : Prop := ∀ a < s.made, ∀ c ∈ s.heap.item a, Http.Legal c.log

namespace Listed

variable {heard : Bool} {seen l : List Nat} {cur : Option Nat} {s : Server}

theorem below (h : Listed heard seen cur l s) : ∀ b ∈ seen ++ l, b < s.made := fun b hb =>
  (h.made b).mp (h.path.mem hb)

theorem head (h : Listed heard seen cur l s) : ∀ a, s.conns = some a → a < s.made := by
  intro a ha
  refine h.below a ?_
  cases hl : seen ++ l with
  | nil =>
      have hpath := h.path
      rw [hl] at hpath
      cases ha.symm.trans (show s.conns = none from hpath)
  | cons b rest =>
      have hpath := h.path
      rw [hl] at hpath
      obtain rfl := Option.some.inj (ha.symm.trans hpath.1)
      exact List.mem_cons_self

theorem nodup (h : Listed heard seen cur l s) : (seen ++ l).Nodup := h.path.nodup h.falls

theorem item_store {heap : Heap Conn} {a b : Nat} {c c' d : Conn} (hitem : heap.item a = some c)
    (hd : (heap.store a c').item b = some d) : b = a ∧ d = c' ∨ b ≠ a ∧ heap.item b = some d := by
  by_cases hb : b = a
  · subst hb
    rw [Heap.store_item hitem] at hd
    exact .inl ⟨rfl, (Option.some.inj hd).symm⟩
  · rw [Heap.store_item_of_ne hb] at hd
    exact .inr ⟨hb, hd⟩

theorem falls_store {heap : Heap Conn} (hf : heap.Falls) (a : Nat) (c : Conn) : (heap.store a c).Falls := by
  intro x y hxy
  rw [Heap.store_next] at hxy
  exact hf x y hxy

-- A connection changes and stays where it is.
theorem put (h : Listed heard seen cur l s) {a : Nat} {c c' : Conn} (hitem : s.heap.item a = some c)
    (hdead : c'.dead = c.dead) (hlife : cur ≠ some a → Life heard c') (hmid : cur = some a → Midway heard c') :
    Listed heard seen cur l { s with heap := s.heap.store a c' } where
  path := h.path.store a c'
  falls := falls_store h.falls a c'
  made b := by
    rw [Heap.store_isSome]
    exact h.made b
  callback := h.callback
  life b d hd hcur := by
    rcases item_store hitem hd with ⟨rfl, rfl⟩ | ⟨-, hd⟩
    · exact hlife hcur
    · exact h.life b d hd hcur
  midway b d hd hcur := by
    rcases item_store hitem hd with ⟨rfl, rfl⟩ | ⟨-, hd⟩
    · exact hmid hcur
    · exact h.midway b d hd hcur
  here b d hd := by
    rcases item_store hitem hd with ⟨rfl, rfl⟩ | ⟨-, hd⟩
    · rw [hdead]
      exact h.here b c hitem
    · exact h.here b d hd

-- A connection leaves, and is taken off the list.
theorem drop (h : Listed heard seen cur l s) {a : Nat} {c c' : Conn} (hitem : s.heap.item a = some c)
    (hlive : c.dead = false) (hdead : c'.dead = true) (hlife : Life heard c') (hcur : cur ≠ some a) :
    Listed heard seen cur (l.erase a) ({ s with heap := s.heap.store a c' }.connUnlink a) := by
  have hmem : a ∈ l := (h.here a c hitem).mp hlive
  have hseen : a ∉ seen := fun hs => (List.nodup_append.mp h.nodup).2.2 a hs a hmem rfl
  have hfuel : (seen ++ l).length < s.made + 1 := Nat.lt_succ_of_le (h.path.length_le h.falls h.head)
  have hpath := Heap.unlink_path (a := a) (h.path.store a c') h.nodup hfuel
  rw [List.erase_append_right _ hseen] at hpath
  refine ⟨hpath, Heap.unlink_falls (falls_store h.falls a c'), fun b => ?_, h.callback, fun b d hd hne => ?_,
    fun b d hd heq => ?_, fun b d hd => ?_⟩
  · show ((Heap.unlink (s.made + 1) (s.heap.store a c') s.conns a).1.item b).isSome ↔ b < s.made
    rw [Heap.unlink_item, Heap.store_isSome]
    exact h.made b
  · rcases item_store hitem ((Heap.unlink_item _ _ _ _ b).symm.trans hd) with ⟨rfl, rfl⟩ | ⟨-, hd⟩
    · exact hlife
    · exact h.life b d hd hne
  · rcases item_store hitem ((Heap.unlink_item _ _ _ _ b).symm.trans hd) with ⟨rfl, rfl⟩ | ⟨-, hd⟩
    · exact absurd heq hcur
    · exact h.midway b d hd heq
  · have hnodup : l.Nodup := (List.nodup_append.mp h.nodup).2.1
    rcases item_store hitem ((Heap.unlink_item _ _ _ _ b).symm.trans hd) with ⟨rfl, rfl⟩ | ⟨hne, hd⟩
    · rw [hdead]
      exact ⟨fun hno => (by cases hno), fun hb => absurd hb hnodup.not_mem_erase⟩
    · rw [h.here b d hd, List.mem_erase_of_ne hne]

end Listed

-- ---- a step of one connection ----

theorem Midway.call {heard : Bool} {c : Conn} (h : Midway heard c) (env : Env) (a : Api) :
    Midway heard (c.step env (.call a)) ∧ c.leaves (c.step env (.call a)) = false := by
  simp only [Conn.step]
  split
  · exact ⟨h, Conn.leaves_same rfl rfl⟩
  · obtain ⟨rc, hcall⟩ := dead_call env (by rw [Conn.dead, h.state]; rfl) a
    have hcalm : Calm c ((c.emit (.called a)).emit (.returned rc)) := (Calm.emit c rfl).trans (.emit _ rfl)
    rw [hcall]
    exact ⟨⟨h.state, h.parted.calm hcalm, h.stream, h.timer, h.released⟩,
      Conn.leaves_same rfl ((cleanups_emit _ rfl).trans (cleanups_emit c rfl))⟩

section

variable {heard : Bool} {seen l : List Nat} {cur : Option Nat} {s : Server}

theorem stepConn_eq {a : Nat} {c : Conn} (hitem : s.heap.item a = some c) (env : Env) (st : Step) :
    s.stepConn a env st =
      if c.leaves (c.step (s.under env) st) then
        { s with heap := s.heap.store a (c.step (s.under env) st) }.connUnlink a
      else { s with heap := s.heap.store a (c.step (s.under env) st) } := by
  unfold stepConn
  rw [hitem]

theorem stepConn_item {a : Nat} {c : Conn} (hitem : s.heap.item a = some c) (env : Env) (st : Step) (b : Nat) :
    (s.stepConn a env st).heap.item b = (s.heap.store a (c.step (s.under env) st)).item b := by
  rw [stepConn_eq hitem]
  split
  · exact Heap.unlink_item _ _ _ _ b
  · rfl

theorem stepConn_made (s : Server) (a : Nat) (env : Env) (st : Step) : (s.stepConn a env st).made = s.made := by
  cases hitem : s.heap.item a with
  | none => simp only [Server.stepConn, hitem]
  | some c =>
      rw [stepConn_eq hitem]
      split <;> rfl

-- While srv_cleanup is at a connection, there are only calls.
theorem Listed.stepConn (h : Listed heard seen cur l s) (a : Nat) (env : Env) (st : Step)
    (hst : cur = none ∨ ∃ api, st = .call api) (hlegal : (s.stepConn a env st).Legal) :
    ∃ l', l'.Sublist l ∧ Listed heard seen cur l' (s.stepConn a env st) := by
  cases hitem : s.heap.item a with
  | none =>
      have hstay : s.stepConn a env st = s := by
        unfold Server.stepConn
        rw [hitem]
      rw [hstay]
      exact ⟨l, .refl l, h⟩
  | some c =>
  have hnew : (s.stepConn a env st).heap.item a = some (c.step (s.under env) st) :=
    (stepConn_item hitem env st a).trans (Heap.store_item hitem _)
  have hbelow : a < s.made := (h.made a).mp (by rw [hitem]; rfl)
  have hmade : 0 < s.made := Nat.zero_lt_of_lt hbelow
  have hclegal := hlegal a (by rw [stepConn_made]; exact hbelow) _ hnew
  rw [stepConn_eq hitem]
  by_cases hcur : cur = some a
  · -- the calls that on_conn_close makes on its own connection come to nothing
    have hmid := h.midway a c hitem hcur
    obtain ⟨api, rfl⟩ : ∃ api, st = .call api := hst.resolve_left (by rw [hcur]; exact Option.some_ne_none a)
    obtain ⟨hmid', hstays⟩ := hmid.call (s.under env) api
    rw [hstays, if_neg (by decide)]
    refine ⟨l, .refl l, h.put hitem ?_ (fun hne => absurd hcur hne) fun _ => hmid'⟩
    rw [Conn.dead, hmid'.state, Conn.dead, hmid.state]
  have hlife := h.life a c hitem hcur
  have hlife' : Life heard (c.step (s.under env) st) :=
    .step (h.callback hmade) st (fun _ => hlife) hclegal
  cases hdead : c.dead with
  | true =>
      obtain ⟨hstate, hstays⟩ := hlife.step_gone hdead st
      rw [hstays, if_neg (by decide)]
      refine ⟨l, .refl l, h.put hitem ?_ (fun _ => hlife') fun heq => absurd heq hcur⟩
      rw [Conn.dead, hstate, Conn.dead]
  | false =>
      rw [hlife.leaves_iff hdead hlife']
      cases hdead' : (c.step (s.under env) st).dead with
      | false =>
          rw [if_neg (by decide)]
          exact ⟨l, .refl l, h.put hitem (hdead'.trans hdead.symm) (fun _ => hlife') fun heq => absurd heq hcur⟩
      | true =>
          rw [if_pos rfl]
          exact ⟨l.erase a, List.erase_sublist, h.drop hitem hdead hdead' hlife' hcur⟩

end

-- ---- logs only grow ----

theorem cleanupTurn_end (w : Walk) (s : Server) : cleanupTurn w (s, none) = .inl s := rfl

theorem cleanupTurn_next (w : Walk) (s : Server) (a : Nat) :
    cleanupTurn w (s, some a) = .inr (s.visit w a, s.heap.next a) := rfl

def Grows (s s' : Server) : Prop :=
  s.made ≤ s'.made ∧ ∀ a c, s.heap.item a = some c → ∃ c', s'.heap.item a = some c' ∧ c.log <+: c'.log

theorem Grows.refl (s : Server) : Grows s s := ⟨Nat.le_refl _, fun _ c hc => ⟨c, hc, List.prefix_rfl⟩⟩

theorem Grows.trans {a b c : Server} (h : Grows a b) (h' : Grows b c) : Grows a c := by
  refine ⟨Nat.le_trans h.1 h'.1, fun x d hd => ?_⟩
  obtain ⟨d', hd', hpre⟩ := h.2 x d hd
  obtain ⟨d'', hd'', hpre'⟩ := h'.2 x d' hd'
  exact ⟨d'', hd'', hpre.trans hpre'⟩

theorem Grows.legal {s s' : Server} (h : Grows s s') (hlegal : s'.Legal) : s.Legal := by
  intro a ha c hc
  obtain ⟨c', hc', hpre⟩ := h.2 a c hc
  exact (hlegal a (Nat.lt_of_lt_of_le ha h.1) c' hc').earlier hpre

-- Only the connections and their list have changed.
structure Within (s s' : Server) : Prop where
  rest : ∃ heap conns, s' = { s with heap := heap, conns := conns }
  items : ∀ a, (s'.heap.item a).isSome = (s.heap.item a).isSome
  falls : s.heap.Falls → s'.heap.Falls
  grows : Grows s s'

namespace Within

variable {s : Server}

theorem refl (s : Server) : Within s s := ⟨⟨s.heap, s.conns, rfl⟩, fun _ => rfl, id, .refl s⟩

theorem trans {a b c : Server} (h : Within a b) (h' : Within b c) : Within a c := by
  obtain ⟨heap, conns, rfl⟩ := h.rest
  obtain ⟨heap', conns', rfl⟩ := h'.rest
  exact ⟨⟨heap', conns', rfl⟩, fun x => (h'.items x).trans (h.items x), h'.falls ∘ h.falls,
    h.grows.trans h'.grows⟩

theorem legal {s' : Server} (h : Within s s') (hlegal : s'.Legal) : s.Legal := h.grows.legal hlegal

theorem store {a : Nat} {c c' : Conn} (hitem : s.heap.item a = some c) (hpre : c.log <+: c'.log) :
    Within s { s with heap := s.heap.store a c' } := by
  refine ⟨⟨_, _, rfl⟩, Heap.store_isSome _ a c', fun hf => Listed.falls_store hf a c', Nat.le_refl _,
    fun b d hd => ?_⟩
  by_cases hb : b = a
  · subst hb
    obtain rfl := Option.some.inj (hitem.symm.trans hd)
    exact ⟨c', Heap.store_item hitem c', hpre⟩
  · exact ⟨d, (Heap.store_item_of_ne hb c').trans hd, List.prefix_rfl⟩

theorem connUnlink (s : Server) (a : Nat) : Within s (s.connUnlink a) := by
  have hitem : ∀ b, (s.connUnlink a).heap.item b = s.heap.item b := Heap.unlink_item _ _ _ a
  exact ⟨⟨_, _, rfl⟩, fun b => congrArg Option.isSome (hitem b), Heap.unlink_falls, Nat.le_refl _,
    fun b c hc => ⟨c, (hitem b).trans hc, List.prefix_rfl⟩⟩

theorem stepConn (s : Server) (a : Nat) (env : Env) (st : Step) : Within s (s.stepConn a env st) := by
  cases hitem : s.heap.item a with
  | none =>
      unfold Server.stepConn
      rw [hitem]
      exact refl s
  | some c =>
      have hlog : c.log <+: (c.step (s.under env) st).log := Conn.step_grows st List.prefix_rfl
      have hstore := store hitem hlog
      rw [stepConn_eq hitem]
      split
      · exact hstore.trans (connUnlink _ a)
      · exact hstore

theorem calls (s : Server) (script : List OnConn) : Within s (s.calls script) := by
  unfold Server.calls
  induction script generalizing s with
  | nil => exact refl s
  | cons k rest ih => exact (stepConn s k.conn k.env (.call k.api)).trans (ih _)

theorem onConn (s : Server) (a : Nat) {f : Conn → Conn} (hf : ∀ c, c.log <+: (f c).log) :
    Within s (s.onConn a f) := by
  unfold Server.onConn
  split
  · exact refl s
  · exact store ‹_› (hf _)

theorem notify (w : Walk) (s : Server) (a : Nat) : Within s (s.notify w a) := by
  unfold Server.notify
  split
  · exact (onConn s a fun c => List.prefix_append _ _).trans (calls _ _)
  · exact refl s

theorem settle (w : Walk) (s : Server) (a : Nat) :
    Within s (s.onConn a fun c => { c with stream := false }.discard w.env) :=
  onConn s a fun c => Conn.discard_grows w.env { c with stream := false }

theorem visit (w : Walk) (s : Server) (a : Nat) : Within s (s.visit w a) := by
  have hclosed := onConn s a (f := fun c => (c.stateSet .closed).idleStop) fun c =>
    Conn.idleStop_grows (List.prefix_append _ _)
  exact (hclosed.trans (notify w _ a)).trans (settle w _ a)

theorem walk (w : Walk) {fuel : Nat} {s s' : Server} {p : Option Nat}
    (hrun : While.run (cleanupTurn w) fuel (s, p) = some s') : Within s s' := by
  induction fuel generalizing s p with
  | zero => cases hrun
  | succ fuel ih =>
      cases p with
      | none =>
          rw [While.run_end (cleanupTurn_end w s)] at hrun
          obtain rfl := Option.some.inj hrun
          exact refl s
      | some a =>
          rw [While.run_next (cleanupTurn_next w s a)] at hrun
          exact (visit w s a).trans (ih hrun)

end Within

-- ---- srv_cleanup ----

section

variable {heard : Bool} {seen l : List Nat} {s : Server}

theorem Listed.calls {cur : Option Nat} (h : Listed heard seen cur l s) (script : List OnConn)
    (hlegal : (s.calls script).Legal) : ∃ l', l'.Sublist l ∧ Listed heard seen cur l' (s.calls script) := by
  unfold Server.calls at hlegal ⊢
  induction script generalizing s l with
  | nil => exact ⟨l, .refl l, h⟩
  | cons k rest ih =>
      have hstep := (Within.calls (s.stepConn k.conn k.env (.call k.api)) rest).legal hlegal
      obtain ⟨l', hsub, h'⟩ := h.stepConn k.conn k.env _ (.inr ⟨k.api, rfl⟩) hstep
      obtain ⟨l'', hsub', h''⟩ := ih h' hlegal
      exact ⟨l'', hsub'.trans hsub, h''⟩

-- srv_cleanup comes to the next connection on the list.
theorem Listed.enter {a : Nat} (h : Listed heard seen none (a :: l) s) {c c' : Conn}
    (hitem : s.heap.item a = some c) (hmid : Midway heard c') :
    Listed heard (seen ++ [a]) (some a) l { s with heap := s.heap.store a c' } := by
  have hdead : c'.dead = true := by
    rw [Conn.dead, hmid.state]
    rfl
  refine ⟨?_, falls_store h.falls a c', fun b => ?_, h.callback, fun b d hd hne => ?_, fun b d hd heq => ?_,
    fun b d hd => ?_⟩
  · rw [List.append_assoc]
    exact h.path.store a c'
  · rw [Heap.store_isSome]
    exact h.made b
  · rcases item_store hitem hd with ⟨rfl, -⟩ | ⟨-, hd⟩
    · exact absurd rfl hne
    · exact h.life b d hd (fun hno => by cases hno)
  · obtain rfl := Option.some.inj heq
    rcases item_store hitem hd with ⟨-, rfl⟩ | ⟨hne, -⟩
    · exact hmid
    · exact absurd rfl hne
  · have hnodup := (List.nodup_append.mp h.nodup).2.1
    rcases item_store hitem hd with ⟨rfl, rfl⟩ | ⟨hne, hd⟩
    · rw [hdead]
      exact ⟨fun hno => (by cases hno), fun hb => absurd hb (List.nodup_cons.mp hnodup).1⟩
    · rw [h.here b d hd, List.mem_cons]
      exact ⟨fun hb => hb.resolve_left hne, .inr⟩

-- It is done with it.
theorem Listed.leave {a : Nat} (h : Listed heard seen (some a) l s) {c c' : Conn}
    (hitem : s.heap.item a = some c) (hlife : Life heard c') (hdead : c'.dead = c.dead) :
    Listed heard seen none l { s with heap := s.heap.store a c' } where
  path := h.path.store a c'
  falls := falls_store h.falls a c'
  made b := by
    rw [Heap.store_isSome]
    exact h.made b
  callback := h.callback
  life b d hd _ := by
    rcases item_store hitem hd with ⟨-, rfl⟩ | ⟨hne, hd⟩
    · exact hlife
    · exact h.life b d hd fun heq => hne (Option.some.inj heq).symm
  midway b d hd hno := by cases hno
  here b d hd := by
    rcases item_store hitem hd with ⟨rfl, rfl⟩ | ⟨-, hd⟩
    · rw [hdead]
      exact h.here b c hitem
    · exact h.here b d hd

theorem onConn_eq {a : Nat} {c : Conn} (hitem : s.heap.item a = some c) (f : Conn → Conn) :
    s.onConn a f = { s with heap := s.heap.store a (f c) } := by
  unfold onConn
  rw [hitem]

theorem midway_of_live {c : Conn} (h : Life heard c) (hlive : c.dead = false) :
    (heard = false → Midway heard (c.stateSet .closed).idleStop) ∧
      (heard = true → Midway heard ((c.stateSet .closed).idleStop.emit .onConnClose)) := by
  obtain ⟨hreleased, hparted, hstream⟩ := h.isUp hlive
  obtain ⟨hfreed, hpending, hfate⟩ := hparted.unsettled hstream
  have hcalm : Calm c (c.stateSet .closed).idleStop := (Calm.stateSet c _).trans (.idleStop _)
  have hstate : (c.stateSet .closed).idleStop.state = .closed := idleStop_state _
  have htimer := Conn.idleStop_timer (c.stateSet .closed)
  generalize (c.stateSet .closed).idleStop = d at hcalm hstate htimer ⊢
  constructor
  · rintro rfl
    exact ⟨hstate, .held (hcalm.stream.trans hstream) (hcalm.freed.trans hfreed) (hcalm.pending.trans hpending)
      (hcalm.fate.trans hfate), hcalm.stream.trans hstream, htimer, hcalm.released.trans hreleased⟩
  · rintro rfl
    have htold : Http.fate (d.emit .onConnClose).log = told true := by
      rw [Conn.emit, fate_concat, hcalm.fate, hfate]
      rfl
    exact ⟨hstate, .held (hcalm.stream.trans hstream) (hcalm.freed.trans hfreed) (hcalm.pending.trans hpending)
      htold, hcalm.stream.trans hstream, htimer, hcalm.released.trans hreleased⟩

theorem Midway.settle {c : Conn} (h : Midway heard c) (env : Env) :
    Life heard (({ c with stream := false } : Conn).discard env) ∧
      (({ c with stream := false } : Conn).discard env).dead = c.dead := by
  obtain ⟨hfreed, hpending, hfate⟩ := h.parted.unsettled h.stream
  have hsettle : Parted (told heard) (({ c with stream := false } : Conn).discard env) :=
    .discard hfreed hpending hfate rfl
  obtain ⟨hstate, hreleased, htimer, hstream⟩ := Conn.discard_same env { c with stream := false }
  refine ⟨.closed (hstate.trans h.state) (hreleased.trans h.released) (htimer.trans h.timer) hstream hsettle, ?_⟩
  rw [Conn.dead, hstate]
  rfl

-- The calls of on_conn_close may have taken connections off the list behind this one.
theorem Listed.notify {a : Nat} (h : Listed heard seen none (a :: l) s) (w : Walk)
    (hlegal : ((s.onConn a fun c => (c.stateSet .closed).idleStop).notify w a).Legal) :
    ∃ l', l'.Sublist l ∧
      Listed heard (seen ++ [a]) (some a) l' ((s.onConn a fun c => (c.stateSet .closed).idleStop).notify w a) := by
  obtain ⟨c, hitem⟩ := Option.isSome_iff_exists.mp (h.path.mem (List.mem_append_right seen List.mem_cons_self))
  have hlive := (h.here a c hitem).mpr List.mem_cons_self
  have hlife := h.life a c hitem (fun hno => by cases hno)
  have hcallback := h.callback (Nat.zero_lt_of_lt ((h.made a).mp (by rw [hitem]; rfl)))
  obtain ⟨hquiet, hnotified⟩ := midway_of_live hlife hlive
  have hreleased : (c.stateSet .closed).idleStop.released = false :=
    (Level.idleStop (c.stateSet .closed)).released.trans (hlife.isUp hlive).1
  rw [onConn_eq hitem] at hlegal ⊢
  have hitem' : (s.heap.store a (c.stateSet .closed).idleStop).item a = some (c.stateSet .closed).idleStop :=
    Heap.store_item hitem _
  generalize (c.stateSet .closed).idleStop = d at hquiet hnotified hreleased hitem' hlegal ⊢
  unfold Server.notify at hlegal ⊢
  cases heard with
  | false =>
      rw [if_neg (by simp [hcallback])] at hlegal ⊢
      exact ⟨l, .refl l, h.enter hitem (hquiet rfl)⟩
  | true =>
      have htell : (s.onConnClose && !((s.heap.store a d).item a).any (·.released)) = true := by
        rw [hcallback, hitem', Option.any_some, hreleased]
        rfl
      rw [if_pos htell, onConn_eq hitem'] at hlegal ⊢
      dsimp only at hlegal ⊢
      rw [Heap.store_store] at hlegal ⊢
      exact (h.enter hitem (hnotified rfl)).calls _ hlegal

theorem Listed.visit {a : Nat} (h : Listed heard seen none (a :: l) s) (w : Walk) (hlegal : (s.visit w a).Legal) :
    ∃ l', l'.Sublist l ∧ Listed heard (seen ++ [a]) none l' (s.visit w a) := by
  obtain ⟨l', hsub, h'⟩ := h.notify w ((Within.settle w _ a).legal hlegal)
  refine ⟨l', hsub, ?_⟩
  unfold Server.visit
  dsimp only
  generalize (s.onConn a fun c => (c.stateSet .closed).idleStop).notify w a = s' at h' ⊢
  have hmem : a ∈ seen ++ [a] := List.mem_append_right seen List.mem_cons_self
  obtain ⟨c, hitem⟩ := Option.isSome_iff_exists.mp (h'.path.mem (List.mem_append_left l' hmem))
  obtain ⟨hlife, hdead⟩ := (h'.midway a c hitem rfl).settle w.env
  rw [onConn_eq hitem]
  exact h'.leave hitem hlife hdead

-- ---- the walk ----

theorem Listed.next {a : Nat} (h : Listed heard seen none (a :: l) s) : s.heap.next a = l.head? :=
  h.path.suffix.2.2.head

-- The loop is at the head of what is left of the list, or at a connection that has left.
def Ahead (l : List Nat) (s : Server) (p : Option Nat) : Prop :=
  p = l.head? ∨ ∃ a c, p = some a ∧ s.heap.item a = some c ∧ c.dead = true

-- http_state_set reports a connection that is taken down twice.
theorem visit_again {a : Nat} {c : Conn} (hitem : s.heap.item a = some c) (hbelow : a < s.made)
    (hdead : c.dead = true) (w : Walk) : ¬ (s.visit w a).Legal := by
  have hrest := (Within.notify w (s.onConn a fun c => (c.stateSet .closed).idleStop) a).trans (.settle w _ a)
  intro hlegal
  have hclosed := hrest.legal hlegal
  rw [onConn_eq hitem] at hclosed
  have hlog := hclosed a hbelow _ (Heap.store_item hitem _)
  have hset : Http.Legal (c.stateSet .closed).log := hlog.earlier (Conn.idleStop_grows List.prefix_rfl)
  have hok : stateOk c.state .closed = true := hset _ (List.mem_append_right _ List.mem_cons_self)
  revert hok hdead
  unfold Conn.dead
  cases c.state <;> decide

-- on_conn_close may have ended the connection that the saved `next` leads to.
theorem Listed.ahead {a : Nat} {rest l' seen' : List Nat} {s' : Server} (h : Listed heard seen none (a :: rest) s)
    (h' : Listed heard seen' none l' s') (hsub : l'.Sublist rest) (hmade : s.made ≤ s'.made) :
    Ahead l' s' rest.head? := by
  cases rest with
  | nil =>
      left
      rw [List.sublist_nil.mp hsub]
  | cons b rest =>
      have hbelow : b < s.made := h.below b (List.mem_append_right _ (by simp))
      obtain ⟨c, hitem⟩ := Option.isSome_iff_exists.mp ((h'.made b).mpr (Nat.lt_of_lt_of_le hbelow hmade))
      cases hdead : c.dead with
      | true => exact .inr ⟨b, c, rfl, hitem, hdead⟩
      | false =>
          left
          have hmem : b ∈ l' := (h'.here b c hitem).mp hdead
          have hfresh : b ∉ rest :=
            (List.nodup_cons.mp (List.nodup_cons.mp (List.nodup_append.mp h.nodup).2.1).2).1
          cases hsub with
          | cons _ hsub => exact absurd (hsub.subset hmem) hfresh
          | cons_cons _ _ => rfl

theorem Listed.walk (w : Walk) {fuel : Nat} {s' : Server} {p : Option Nat} (h : Listed heard seen none l s)
    (hp : Ahead l s p) (hrun : While.run (cleanupTurn w) fuel (s, p) = some s') (hlegal : s'.Legal) :
    ∃ seen', Listed heard seen' none [] s' := by
  induction fuel generalizing s p seen l with
  | zero => cases hrun
  | succ fuel ih =>
      cases p with
      | none =>
          rw [While.run_end (cleanupTurn_end w s)] at hrun
          obtain rfl := Option.some.inj hrun
          have hnil : l = [] := by
            rcases hp with hp | ⟨a, c, hno, -⟩
            · exact List.head?_eq_none_iff.mp hp.symm
            · cases hno
          exact ⟨seen, hnil ▸ h⟩
      | some a =>
          rw [While.run_next (cleanupTurn_next w s a)] at hrun
          have hvisit := (Within.walk w hrun).legal hlegal
          have hhead : l.head? = some a := by
            rcases hp with hp | ⟨b, c, hb, hitem, hdead⟩
            · exact hp.symm
            · obtain rfl := Option.some.inj hb
              exact absurd hvisit (visit_again hitem ((h.made a).mp (by rw [hitem]; rfl)) hdead w)
          obtain ⟨rest, rfl⟩ : ∃ rest, l = a :: rest := List.head?_eq_some_iff.mp hhead
          obtain ⟨l', hsub, h'⟩ := h.visit w hvisit
          refine ih h' ?_ hrun
          rw [h.next]
          exact h.ahead h' hsub (Within.visit w s a).grows.1

-- ---- the walk ends ----

-- The pointers fall, so that the walk takes one turn a connection at the most.
theorem walk_ends (w : Walk) (hf : s.heap.Falls) (hhead : ∀ a, s.conns = some a → a < s.made) :
    ∃ s', While.run (cleanupTurn w) (s.made + 1) (s, s.conns) = some s' := by
  refine While.run_total (I := fun t => t.1.heap.Falls) (μ := fun t => t.2.elim 0 (· + 1)) ?_ hf ?_
  · rintro ⟨t, p⟩ ⟨t', p'⟩ hfalls hturn
    cases p with
    | none => cases hturn
    | some a =>
        cases hturn
        refine ⟨(Within.visit w t a).falls hfalls, ?_⟩
        cases hnext : t.heap.next a with
        | none => exact Nat.succ_pos a
        | some b => exact Nat.succ_lt_succ (hfalls a b hnext)
  · cases hconns : s.conns with
    | none => exact Nat.succ_pos _
    | some a => exact Nat.succ_lt_succ (hhead a hconns)

theorem srvCleanup_eq (w : Walk) (h : Listed heard [] none l s) :
    ∃ s', While.run (cleanupTurn w) (s.made + 1) (s, s.conns) = some s' ∧
      s.srvCleanup w = { s' with
        conns := none, acceptor := s'.acceptor.call (.destroy w.acceptorPost), freed := true }.emit .freed := by
  obtain ⟨s', hrun⟩ := walk_ends w h.falls h.head
  refine ⟨s', hrun, ?_⟩
  unfold Server.srvCleanup
  rw [hrun]
  rfl

-- Nobody is left on the list.
theorem Listed.srvCleanup (h : Listed heard [] none l s) (w : Walk) (hlegal : (s.srvCleanup w).Legal) :
    Listed heard [] none [] (s.srvCleanup w) := by
  obtain ⟨s', hrun, heq⟩ := srvCleanup_eq w h
  rw [heq] at hlegal ⊢
  obtain ⟨seen', h'⟩ := h.walk w (.inl h.path.head) hrun hlegal
  exact ⟨rfl, h'.falls, h'.made, h'.callback, h'.life, h'.midway, h'.here⟩

end

-- ---- the other steps ----

section

variable {heard : Bool} {l : List Nat} {s : Server}

theorem takeRecv_same (c : Conn) : ∃ recv recvCap, c.takeRecv.2 = { c with recv := recv, recvCap := recvCap } := by
  unfold Conn.takeRecv
  split
  · exact ⟨_, _, rfl⟩
  · exact ⟨_, _, rfl⟩

theorem takeOver_life {c : Conn} (h : Life heard c) (env : Env) (granted : Bool) :
    Life heard (c.takeOver env granted) ∧ (c.takeOver env granted).dead = c.dead := by
  unfold Conn.takeOver
  by_cases hreleased : c.released = true
  swap
  · have hno : c.detachStream = (false, c) := if_pos (by simp [hreleased])
    rw [hno]
    exact ⟨h, rfl⟩
  obtain ⟨hstate, htimer, hparted⟩ : c.state = .released ∧ c.idleTimer = false ∧ Parted [] c := by
    cases h with
    | up _ hno => cases hno.symm.trans hreleased
    | closed _ hno => cases hno.symm.trans hreleased
    | released hstate _ htimer hparted => exact ⟨hstate, htimer, hparted⟩
  have hdetach : c.detachStream = (c.stream, { c with stream := false }) := if_neg (by simp [hreleased])
  rw [hdetach]
  dsimp only
  by_cases hstream : c.stream = true
  swap
  · rw [if_pos (by simp [hstream])]
    have hcalm : Calm c { c with stream := false } := ⟨rfl, (eq_false_of_ne_true hstream).symm, rfl, rfl, rfl⟩
    exact ⟨.released hstate hreleased htimer (hparted.calm hcalm), rfl⟩
  obtain ⟨hfreed, hpending, hfate⟩ := hparted.unsettled hstream
  obtain ⟨recv, recvCap, heq⟩ : ∃ recv recvCap, (if granted then ({ c with stream := false } : Conn).takeRecv.2
      else { c with stream := false }) = { c with stream := false, recv := recv, recvCap := recvCap } := by
    cases granted with
    | true => exact takeRecv_same _
    | false => exact ⟨_, _, rfl⟩
  have hshell : ({ c with stream := false, recv := recv, recvCap := recvCap } : Conn).destroyShell env =
      ({ c with stream := false, recv := recv, recvCap := recvCap } : Conn).discard env :=
    if_neg (by simp [hreleased])
  rw [if_neg (by simp [hstream]), heq, hshell]
  obtain ⟨hsame, hmark, hstopped, -⟩ :=
    Conn.discard_same env { c with stream := false, recv := recv, recvCap := recvCap }
  refine ⟨.released (hsame.trans hstate) (hmark.trans hreleased) (hstopped.trans htimer)
    (.discard hfreed hpending hfate rfl), ?_⟩
  rw [Conn.dead, hsame]
  rfl

theorem Listed.takeOver (h : Listed heard [] none l s) (a : Nat) (env : Env) (granted : Bool) :
    Listed heard [] none l (s.onConn a (·.takeOver env granted)) := by
  cases hitem : s.heap.item a with
  | none =>
      have hstay : s.onConn a (·.takeOver env granted) = s := by
        unfold onConn
        rw [hitem]
      rw [hstay]
      exact h
  | some c =>
      obtain ⟨hlife, hdead⟩ := takeOver_life (h.life a c hitem (fun hno => by cases hno)) env granted
      rw [onConn_eq hitem]
      exact h.put hitem hdead (fun _ => hlife) fun hno => by cases hno

theorem accepted_up (recvCap : Nat) : Life heard (.accepted recvCap) :=
  .up rfl rfl (.held rfl rfl rfl rfl) rfl

-- A new connection at the head of the list.
theorem Listed.accepted (h : Listed heard [] none l s) (hheard : s.onConnClose = heard) (e : Event)
    (recvCap : Nat) : Listed heard [] none (s.made :: l)
      { s.emit e with
        heap := s.heap.insert s.made s.conns (.accepted recvCap), conns := some s.made, made := s.made + 1 } := by
  have hbelow : ∀ b ∈ l, b < s.made := h.below
  have hitem : ∀ b c, (s.heap.insert s.made s.conns (Conn.accepted recvCap)).item b = some c →
      b = s.made ∧ c = .accepted recvCap ∨ b ≠ s.made ∧ s.heap.item b = some c := by
    intro b c hc
    by_cases hb : b = s.made
    · subst hb
      rw [Heap.insert_item] at hc
      exact .inl ⟨rfl, (Option.some.inj hc).symm⟩
    · rw [(Heap.insert_of_ne hb _ _).2] at hc
      exact .inr ⟨hb, hc⟩
  refine ⟨h.path.insert (fun hmem => Nat.lt_irrefl _ (hbelow _ hmem)) _, Heap.insert_falls h.falls h.head _, ?_,
    fun _ => hheard, ?_, fun b c _ hno => (by cases hno), ?_⟩
  · intro b
    show ((s.heap.insert s.made s.conns (Conn.accepted recvCap)).item b).isSome ↔ b < s.made + 1
    by_cases hb : b = s.made
    · subst hb
      simp
    · rw [(Heap.insert_of_ne hb _ _).2, h.made b]
      omega
  · intro b c hc _
    rcases hitem b c hc with ⟨-, rfl⟩ | ⟨-, hc⟩
    · exact accepted_up recvCap
    · exact h.life b c hc (fun hno => by cases hno)
  · intro b c hc
    rcases hitem b c hc with ⟨rfl, rfl⟩ | ⟨hb, hc⟩
    · exact ⟨fun _ => List.mem_cons_self, fun _ => rfl⟩
    · rw [h.here b c hc, List.mem_cons]
      exact ⟨.inr, fun hmem => hmem.resolve_left hb⟩

end

-- ---- a run ----

-- The descriptor that srv_on_accept has closed or passed on, and the connection that has got it.
def Event.fd : Event → Option Nat
  | .closeFd fd => some fd
  | .handed fd _ => some fd
  | _ => none

def Event.owner : Event → Option Nat
  | .handed _ conn => some conn
  | _ => none

-- What holds between the callbacks.
structure Kept (heard : Bool) (l : List Nat) (s : Server) : Prop extends Listed heard [] none l s where
  listener : Tcp.Acceptor.Sound false s.acceptor
  hears : s.acceptor.ioHandle.isSome = true → s.onConnClose = heard
  fds : s.log.filterMap Event.fd = s.acceptor.log.filterMap Tcp.Acceptor.Event.handed
  owners : s.log.filterMap Event.owner = List.range s.made
  waits : s.posted = true → s.destroyed = true ∧ s.freed = false
  ended : s.freed = true → s.destroyed = true ∧ s.acceptor.destroyed = true ∧ l = []
  owed : s.destroyed = true → s.posted = true ∨ s.freed = true
  frees : s.log.count .freed = s.freed.toNat

-- Every sevent_http_server_listen gives, or does not give, an on_conn_close.
def Input.Hears (heard : Bool) : Input → Prop
  | .listen onConnClose _ _ _ _ _ _ => onConnClose = heard
  | _ => True

section

variable {heard : Bool} {l : List Nat} {s s' : Server}

theorem Kept.within (h : Kept heard l s) {l' : List Nat} (hw : Within s s') (hl : Listed heard [] none l' s')
    (hsub : l'.Sublist l) : Kept heard l' s' := by
  obtain ⟨heap, conns, rfl⟩ := hw.rest
  refine ⟨hl, h.listener, h.hears, h.fds, h.owners, h.waits, fun hf => ?_, h.owed, h.frees⟩
  obtain ⟨hd, ha, rfl⟩ := h.ended hf
  exact ⟨hd, ha, List.sublist_nil.mp hsub⟩

-- ---- logs only grow, step by step ----

def Fresh (s : Server) : Prop := ∀ a, s.made ≤ a → s.heap.item a = none

theorem takeOver_grows (c : Conn) (env : Env) (granted : Bool) : c.log <+: (c.takeOver env granted).log := by
  have hshell : ∀ d : Conn, d.log = c.log → c.log <+: (d.destroyShell env).log := by
    intro d hd
    rw [← hd]
    unfold Conn.destroyShell
    split
    · exact List.prefix_rfl
    · exact Conn.discard_grows env d
  unfold Conn.takeOver
  cases hreleased : c.released with
  | false =>
      have hno : c.detachStream = (false, c) := if_pos (by simp [hreleased])
      rw [hno]
      exact List.prefix_rfl
  | true =>
      have hdetach : c.detachStream = (c.stream, { c with stream := false }) := if_neg (by simp [hreleased])
      rw [hdetach]
      dsimp only
      split
      · exact List.prefix_rfl
      cases granted with
      | true =>
          obtain ⟨recv, recvCap, heq⟩ := takeRecv_same { c with stream := false }
          rw [if_pos rfl, heq]
          exact hshell _ rfl
      | false => exact hshell _ rfl

theorem Within.fresh (hw : Within s s') (hf : Fresh s) : Fresh s' := by
  intro a ha
  have hsame := hw.items a
  obtain ⟨heap, conns, rfl⟩ := hw.rest
  rw [hf a ha] at hsame
  exact Option.not_isSome_iff_eq_none.mp (by rw [hsame]; decide)

theorem Within.cleanup (w : Walk) (s : Server) :
    Within s ((While.run (cleanupTurn w) (s.made + 1) (s, s.conns)).getD s) := by
  cases hrun : While.run (cleanupTurn w) (s.made + 1) (s, s.conns) with
  | none => exact refl s
  | some s' => exact walk w hrun

-- Fields that no connection is in do not matter.
theorem Grows.same {d : Server} (h : Grows s s') (hheap : d.heap = s'.heap) (hmade : d.made = s'.made) : Grows s d := by
  unfold Grows
  rw [hheap, hmade]
  exact h

theorem srvCleanup_grows (w : Walk) (hf : Fresh s) : Fresh (s.srvCleanup w) ∧ Grows s (s.srvCleanup w) := by
  have hw := Within.cleanup w s
  exact ⟨hw.fresh hf, hw.grows.same rfl rfl⟩

theorem onAccept_grows (hf : Fresh s) (fd : Nat) (how : Accepting) :
    Fresh (s.onAccept fd how) ∧ Grows s (s.onAccept fd how) := by
  have hstill : ∀ d : Server, d.heap = s.heap → d.made = s.made → Fresh d ∧ Grows s d := by
    intro d hheap hmade
    refine ⟨?_, (Grows.refl s).same hheap hmade⟩
    unfold Fresh
    rw [hheap, hmade]
    exact hf
  cases how with
  | noConn => exact hstill _ rfl rfl
  | noBuffer => exact hstill _ rfl rfl
  | noStream => exact hstill _ rfl rfl
  | refused rc =>
      simp only [Server.onAccept]
      split
      · exact hstill _ rfl rfl
      · exact hstill _ rfl rfl
  | opened =>
      refine ⟨fun a ha => ?_, Nat.le_succ _, fun a c hc => ⟨c, ?_, List.prefix_rfl⟩⟩
      · have hlt : s.made < a := ha
        exact (Heap.insert_of_ne (Nat.ne_of_gt hlt) _ _).2.trans (hf a (Nat.le_of_lt hlt))
      · have hne : a ≠ s.made := by
          rintro rfl
          cases (hf s.made (Nat.le_refl _)).symm.trans hc
        exact (Heap.insert_of_ne hne _ _).2.trans hc

theorem onAcceptReady_grows (ready : List (Nat × Accepting)) (hf : Fresh s) :
    Fresh (s.onAcceptReady ready) ∧ Grows s (s.onAcceptReady ready) := by
  unfold Server.onAcceptReady
  induction ready generalizing s with
  | nil => exact ⟨hf, .refl s⟩
  | cons r rest ih =>
      rw [List.foldl_cons]
      dsimp only
      split
      · exact ih hf
      · have hturn := onAccept_grows (s := { s with acceptor := s.acceptor.step (.readable [(r.1, [])]) }) hf r.1 r.2
        obtain ⟨hfresh, hgrows⟩ := ih hturn.1
        exact ⟨hfresh, Grows.trans hturn.2 hgrows⟩

theorem step_grows (i : Input) (hf : Fresh s) : Fresh (s.step i) ∧ Grows s (s.step i) := by
  have hstay : Fresh s ∧ Grows s s := ⟨hf, .refl s⟩
  cases i with
  | listen onConnClose onError handlers addr port backlog k =>
      simp only [Server.step, Server.listen]
      split
      · exact hstay
      · split
        · exact hstay
        · exact ⟨hf, (Grows.refl s).same rfl rfl⟩
  | readable ready =>
      simp only [Server.step]
      split
      · exact onAcceptReady_grows ready hf
      · exact hstay
  | conn a env st => exact ⟨(Within.stepConn s a env st).fresh hf, (Within.stepConn s a env st).grows⟩
  | takeOver a env granted =>
      have hw : Within s (s.onConn a (·.takeOver env granted)) := .onConn s a fun c => takeOver_grows c env granted
      exact ⟨hw.fresh hf, hw.grows⟩
  | destroy w postOk =>
      simp only [Server.step, Server.destroy]
      split
      · exact hstay
      · split
        · exact ⟨hf, (Grows.refl s).same rfl rfl⟩
        · have hclean := srvCleanup_grows
            (s := { s with destroyed := true, posted := postOk }.emit (.posted postOk)) w hf
          exact ⟨hclean.1, hclean.2⟩
  | cleanup w =>
      simp only [Server.step]
      split
      · exact srvCleanup_grows (s := { s with posted := false }) w hf
      · exact hstay
  | acceptorPosts => exact ⟨hf, (Grows.refl s).same rfl rfl⟩

theorem run_grows (inputs : List Input) (hf : Fresh s) : Grows s (s.run inputs) := by
  unfold Server.run
  induction inputs generalizing s with
  | nil => exact .refl s
  | cons i rest ih =>
      obtain ⟨hfresh, hgrows⟩ := step_grows i hf
      exact hgrows.trans (ih hfresh)

-- ---- what a step keeps ----

-- Only these fields are in the list.
theorem Listed.congr (h : Listed heard [] none l s) (hheap : s'.heap = s.heap) (hconns : s'.conns = s.conns)
    (hmade : s'.made = s.made) (hheard : 0 < s.made → s'.onConnClose = heard) : Listed heard [] none l s' := by
  have hpath := h.path
  have hfalls := h.falls
  have hall := h.made
  have hlife := h.life
  have hmidway := h.midway
  have hhere := h.here
  rw [← hheap] at hpath hfalls hall hlife hmidway hhere
  rw [← hconns] at hpath
  rw [← hmade] at hall hheard
  exact ⟨hpath, hfalls, hall, hheard, hlife, hmidway, hhere⟩

theorem Kept.unfreed (h : Kept heard l s) (hd : s.destroyed = false) : s.freed = false := by
  by_contra hf
  cases (h.ended (by simpa using hf)).1.symm.trans hd

theorem filterMap_snoc {α : Type} (f : Event → Option α) (log : List Event) {e : Event} (he : f e = none) :
    (log ++ [e]).filterMap f = log.filterMap f := by
  rw [List.filterMap_append, List.filterMap_cons_none he, List.filterMap_nil, List.append_nil]

theorem Kept.listening (h : Kept heard l s) (hd : s.acceptor.destroyed = false) : s.freed = false := by
  by_contra hf
  cases (h.ended (by simpa using hf)).2.1.symm.trans hd

section

variable {acceptor : Tcp.Acceptor} {fd : Nat}

-- The acceptor has handed a descriptor over, and srv_on_accept closes it again.
theorem Kept.shut (h : Kept heard l s) (hlive : s.freed = false) (hheard : s.onConnClose = heard)
    (hlistener : Tcp.Acceptor.Sound false acceptor)
    (hhanded : acceptor.log.filterMap Tcp.Acceptor.Event.handed = s.log.filterMap Event.fd ++ [fd])
    (es : List Event) (hfds : es.filterMap Event.fd = [fd]) (howners : es.filterMap Event.owner = [])
    (hcount : es.count .freed = 0) : Kept heard l { s with acceptor := acceptor, log := s.log ++ es } := by
  refine ⟨⟨h.path, h.falls, h.made, h.callback, h.life, h.midway, h.here⟩, hlistener, fun _ => hheard, ?_, ?_,
    h.waits, fun hf => ?_, h.owed, ?_⟩
  · show (s.log ++ es).filterMap Event.fd = _
    rw [List.filterMap_append, hfds, hhanded]
  · show (s.log ++ es).filterMap Event.owner = _
    rw [List.filterMap_append, howners, List.append_nil, h.owners]
  · cases hf.symm.trans hlive
  · show (s.log ++ es).count Server.Event.freed = _
    rw [List.count_append, hcount, Nat.add_zero, h.frees]

-- It opens a connection on the descriptor, at the head of the list.
theorem Kept.accepted (h : Kept heard l s) (hlive : s.freed = false) (hheard : s.onConnClose = heard)
    (hlistener : Tcp.Acceptor.Sound false acceptor)
    (hhanded : acceptor.log.filterMap Tcp.Acceptor.Event.handed = s.log.filterMap Event.fd ++ [fd]) :
    Kept heard (s.made :: l) ({ s with acceptor := acceptor }.onAccept fd .opened) := by
  have hsame : Listed heard [] none l { s with acceptor := acceptor } :=
    h.toListed.congr rfl rfl rfl h.callback
  have hlisted := hsame.accepted hheard
    (.handed fd s.made) (if s.recvBufSize = 0 then recvBufDefault else s.recvBufSize)
  refine ⟨hlisted, hlistener, fun _ => hheard, ?_, ?_, h.waits, fun hf => ?_, h.owed, ?_⟩
  · show (s.log ++ [Server.Event.handed fd s.made]).filterMap Event.fd =
      acceptor.log.filterMap Tcp.Acceptor.Event.handed
    rw [List.filterMap_append, hhanded]
    rfl
  · show (s.log ++ [Server.Event.handed fd s.made]).filterMap Event.owner = List.range (s.made + 1)
    rw [List.filterMap_append, h.owners, List.range_succ]
    rfl
  · cases hf.symm.trans hlive
  · show (s.log ++ [Server.Event.handed fd s.made]).count Server.Event.freed = _
    rw [List.count_append, h.frees]
    rfl

end

-- A descriptor comes, and srv_on_accept closes it or opens a connection on it.
theorem Kept.turn (h : Kept heard l s) (hd : s.acceptor.destroyed = false) (hfd : s.acceptor.fd.isSome = true)
    (fd : Nat) (how : Accepting) :
    ∃ l', Kept heard l' ({ s with acceptor := s.acceptor.step (.readable [(fd, [])]) }.onAccept fd how) := by
  have hio : s.acceptor.ioHandle.isSome = true := by rw [h.listener.handle]; exact hfd
  have hheard := h.hears hio
  have hlive := h.listening hd
  have hlistener := Tcp.Acceptor.step_sound (.readable [(fd, [])]) h.listener
  have hhanded : (s.acceptor.step (.readable [(fd, [])])).log.filterMap Tcp.Acceptor.Event.handed =
      s.log.filterMap Event.fd ++ [fd] := by
    rw [Tcp.Acceptor.step_one hd hfd hio fd, h.fds]
    simp [Tcp.Acceptor.emit, List.filterMap_append, List.filterMap_cons, Tcp.Acceptor.Event.handed]
  generalize s.acceptor.step (.readable [(fd, [])]) = acceptor at hlistener hhanded ⊢
  cases how with
  | noConn => exact ⟨l, h.shut hlive hheard hlistener hhanded [.closeFd fd] rfl rfl rfl⟩
  | noBuffer => exact ⟨l, h.shut hlive hheard hlistener hhanded [.closeFd fd] rfl rfl rfl⟩
  | noStream => exact ⟨l, h.shut hlive hheard hlistener hhanded [.closeFd fd] rfl rfl rfl⟩
  | refused rc =>
      refine ⟨l, ?_⟩
      simp only [Server.onAccept]
      split
      · have hlog : s.log ++ [Server.Event.closeFd fd] ++ [Server.Event.onError rc] =
            s.log ++ [Server.Event.closeFd fd, .onError rc] := by simp
        show Kept heard l { s with
          acceptor := acceptor, log := s.log ++ [Server.Event.closeFd fd] ++ [Server.Event.onError rc] }
        rw [hlog]
        exact h.shut hlive hheard hlistener hhanded [.closeFd fd, .onError rc] rfl rfl rfl
      · exact h.shut hlive hheard hlistener hhanded [.closeFd fd] rfl rfl rfl
  | opened => exact ⟨s.made :: l, h.accepted hlive hheard hlistener hhanded⟩

theorem Kept.accepts (h : Kept heard l s) (ready : List (Nat × Accepting)) :
    ∃ l', Kept heard l' (s.onAcceptReady ready) := by
  unfold Server.onAcceptReady
  induction ready generalizing s l with
  | nil => exact ⟨l, h⟩
  | cons r rest ih =>
      rw [List.foldl_cons]
      dsimp only
      split
      · exact ih h
      · rename_i hno
        obtain ⟨hd, hfd⟩ := Bool.or_eq_false_iff.mp (eq_false_of_ne_true hno)
        obtain ⟨l', h'⟩ := h.turn hd (by simpa using congrArg not hfd) r.1 r.2
        exact ih h'

-- srv_cleanup, posted or at once.
theorem Kept.cleanup (h : Listed heard [] none l s) (w : Walk) (hlistener : Tcp.Acceptor.Sound false s.acceptor)
    (hfds : s.log.filterMap Event.fd = s.acceptor.log.filterMap Tcp.Acceptor.Event.handed)
    (howners : s.log.filterMap Event.owner = List.range s.made) (hd : s.destroyed = true)
    (hp : s.posted = false) (hfrees : s.log.count .freed = 0) (hlegal : (s.srvCleanup w).Legal) :
    Kept heard [] (s.srvCleanup w) := by
  have hlisted := h.srvCleanup w hlegal
  obtain ⟨s', hrun, heq⟩ := srvCleanup_eq w h
  obtain ⟨heap, conns, rfl⟩ := (Within.walk w hrun).rest
  rw [heq] at hlisted ⊢
  have hgone : (s.acceptor.call (.destroy w.acceptorPost)).destroyed = true := Tcp.Acceptor.call_destroyed _ _
  have hlistener' := Tcp.Acceptor.call_sound (.destroy w.acceptorPost) hlistener
  refine ⟨hlisted, hlistener', fun hio => ?_, ?_, ?_, fun hno => ?_, fun _ => ⟨hd, hgone, rfl⟩,
    fun _ => .inr rfl, ?_⟩
  · have hnone : (s.acceptor.call (.destroy w.acceptorPost)).ioHandle = none :=
      hlistener'.handle.trans (hlistener'.shut hgone)
    have hio : (s.acceptor.call (.destroy w.acceptorPost)).ioHandle.isSome = true := hio
    rw [hnone] at hio
    cases hio
  · show (s.log ++ [Server.Event.freed]).filterMap Event.fd = _
    rw [filterMap_snoc _ _ rfl, hfds]
    exact (Tcp.Acceptor.call_handed _ _).symm
  · show (s.log ++ [Server.Event.freed]).filterMap Event.owner = List.range s.made
    rw [filterMap_snoc _ _ rfl, howners]
  · cases hp.symm.trans hno
  · show (s.log ++ [Server.Event.freed]).count Server.Event.freed = _
    rw [List.count_append, hfrees]
    rfl

theorem Kept.listen (h : Kept heard l s) (hd : s.destroyed = false) (onError handlers : Bool) (addr : Option Bytes)
    (port : Nat) (backlog : Int) (k : Tcp.Acceptor.Answers) :
    Kept heard l (s.listen heard onError handlers addr port backlog k) := by
  unfold Server.listen
  split
  · exact h
  · have hlisted : Listed heard [] none l { s with
        onConnClose := heard, onError := onError
        acceptor := s.acceptor.call (.listen addr port backlog (some 0) k) } :=
      h.toListed.congr rfl rfl rfl fun _ => rfl
    have hlistener := Tcp.Acceptor.call_sound (.listen addr port backlog (some 0) k) h.listener
    refine ⟨hlisted, hlistener, fun _ => rfl, ?_, h.owners, h.waits, fun hf => ?_, h.owed, h.frees⟩
    · exact h.fds.trans (Tcp.Acceptor.call_handed _ _).symm
    · cases (h.unfreed hd).symm.trans hf

theorem Kept.destroy (h : Kept heard l s) (w : Walk) (postOk : Bool) (hlegal : (s.destroy w postOk).Legal) :
    ∃ l', Kept heard l' (s.destroy w postOk) := by
  unfold Server.destroy at hlegal ⊢
  cases hd : s.destroyed with
  | true =>
      rw [if_pos rfl]
      exact ⟨l, h⟩
  | false =>
  rw [hd, if_neg (by decide)] at hlegal
  rw [if_neg (by decide)]
  have hlive := h.unfreed hd
  have hzero : (s.log ++ [Server.Event.posted postOk]).count Server.Event.freed = 0 := by
    rw [List.count_append, h.frees, hlive]
    rfl
  have hfds : (s.log ++ [Server.Event.posted postOk]).filterMap Event.fd =
      s.acceptor.log.filterMap Tcp.Acceptor.Event.handed := (filterMap_snoc _ _ rfl).trans h.fds
  have howners : (s.log ++ [Server.Event.posted postOk]).filterMap Event.owner = List.range s.made :=
    (filterMap_snoc _ _ rfl).trans h.owners
  have hlisted : Listed heard [] none l ({ s with destroyed := true, posted := postOk }.emit (.posted postOk)) :=
    h.toListed.congr rfl rfl rfl h.callback
  cases postOk with
  | true =>
      refine ⟨l, hlisted, h.listener, h.hears, hfds, howners, fun _ => ⟨rfl, hlive⟩, fun hf => ?_,
        fun _ => .inl rfl, ?_⟩
      · cases hlive.symm.trans hf
      · show (s.log ++ [Server.Event.posted true]).count Server.Event.freed = s.freed.toNat
        rw [hzero, hlive]
        rfl
  | false => exact ⟨[], .cleanup hlisted w h.listener hfds howners rfl rfl hzero hlegal⟩

theorem Kept.acceptorPosts (h : Kept heard l s) : Kept heard l { s with acceptor := s.acceptor.step .posts } := by
  have hsound := Tcp.Acceptor.step_sound .posts h.listener
  have hstep : (s.acceptor.step .posts).ioHandle = s.acceptor.ioHandle ∧
      (s.acceptor.step .posts).destroyed = s.acceptor.destroyed ∧
      (s.acceptor.step .posts).log.filterMap Tcp.Acceptor.Event.handed =
        s.acceptor.log.filterMap Tcp.Acceptor.Event.handed := by
    simp only [Tcp.Acceptor.step]
    split
    · exact ⟨rfl, rfl, by simp [Tcp.Acceptor.cleanup, Tcp.Acceptor.emit, Tcp.Acceptor.Event.handed]⟩
    · exact ⟨rfl, rfl, rfl⟩
  obtain ⟨hio, hdestroyed, hhanded⟩ := hstep
  refine ⟨h.toListed.congr rfl rfl rfl h.callback, hsound, fun hsome => h.hears (hio ▸ hsome),
    h.fds.trans hhanded.symm, h.owners, h.waits, fun hf => ?_, h.owed, h.frees⟩
  obtain ⟨hd, ha, hl⟩ := h.ended hf
  exact ⟨hd, hdestroyed.trans ha, hl⟩

theorem Kept.step (h : Kept heard l s) (i : Input) (hi : i.Hears heard) (hlegal : (s.step i).Legal) :
    ∃ l', Kept heard l' (s.step i) := by
  cases i with
  | listen onConnClose onError handlers addr port backlog k =>
      have hheard : onConnClose = heard := hi
      subst hheard
      simp only [Server.step]
      split
      · exact ⟨l, h⟩
      · exact ⟨l, h.listen (eq_false_of_ne_true ‹_›) onError handlers addr port backlog k⟩
  | readable ready =>
      simp only [Server.step]
      split
      · exact h.accepts ready
      · exact ⟨l, h⟩
  | conn a env st =>
      obtain ⟨l', hsub, hl⟩ := h.toListed.stepConn a env st (.inl rfl) hlegal
      exact ⟨l', h.within (.stepConn s a env st) hl hsub⟩
  | takeOver a env granted =>
      have hw : Within s (s.onConn a (·.takeOver env granted)) := .onConn s a fun c => takeOver_grows c env granted
      exact ⟨l, h.within hw (h.toListed.takeOver a env granted) (.refl l)⟩
  | destroy w postOk => exact h.destroy w postOk hlegal
  | cleanup w =>
      simp only [Server.step] at hlegal ⊢
      split
      · rename_i hposted
        rw [if_pos hposted] at hlegal
        obtain ⟨hd, hlive⟩ := h.waits hposted
        have hlisted : Listed heard [] none l { s with posted := false } :=
          h.toListed.congr rfl rfl rfl h.callback
        have hzero : s.log.count Server.Event.freed = 0 := by rw [h.frees, hlive]; rfl
        exact ⟨[], .cleanup hlisted w h.listener h.fds h.owners hd rfl hzero hlegal⟩
      · exact ⟨l, h⟩
  | acceptorPosts => exact ⟨l, h.acceptorPosts⟩

theorem Kept.run (h : Kept heard l s) (inputs : List Input) (hi : ∀ i ∈ inputs, i.Hears heard)
    (hlegal : (s.run inputs).Legal) : ∃ l', Kept heard l' (s.run inputs) := by
  induction inputs generalizing s l with
  | nil => exact ⟨l, h⟩
  | cons i rest ih =>
      have hfresh : Fresh s := fun a ha => by
        by_contra hno
        have := (h.made a).mp (Option.isSome_iff_ne_none.mpr hno)
        omega
      have hstep : (s.step i).Legal := (run_grows rest (step_grows i hfresh).1).legal hlegal
      obtain ⟨l', h'⟩ := h.step i (hi i List.mem_cons_self) hstep
      exact ih h' (fun j hj => hi j (List.mem_cons_of_mem i hj)) hlegal

theorem create_kept (recvBufSize : Nat) (idleTimeoutMs : Int) : Kept heard [] (create recvBufSize idleTimeoutMs) where
  path := rfl
  falls := fun _ _ h => by cases h
  made := fun a => ⟨fun h => (by cases h), fun h => absurd h (Nat.not_lt_zero a)⟩
  callback := fun h => absurd h (Nat.lt_irrefl 0)
  life := fun _ _ h _ => by cases h
  midway := fun _ _ h _ => by cases h
  here := fun _ _ h => by cases h
  listener := Tcp.Acceptor.create_sound
  hears := fun h => by cases h
  fds := rfl
  owners := rfl
  waits := fun h => by cases h
  ended := fun h => by cases h
  owed := fun h => by cases h
  frees := rfl

end

-- The server over its whole life, as long as http_state_set reports nothing. The list holds the
-- connections that have not left, and srv_cleanup leaves none; each connection is told of and released
-- once, as its life says, and each descriptor is closed or gets a connection of its own.
theorem connections_leave_once (recvBufSize : Nat) (idleTimeoutMs : Int) (heard : Bool) (inputs : List Input)
    (hheard : ∀ i ∈ inputs, i.Hears heard) (hlegal : ((create recvBufSize idleTimeoutMs).run inputs).Legal) :
    let s := (create recvBufSize idleTimeoutMs).run inputs
    ∃ l, s.heap.Path s.conns l ∧ l.Nodup ∧
      (∀ a c, s.heap.item a = some c → Life heard c ∧ (c.dead = false ↔ a ∈ l)) ∧
      (s.freed = true → l = []) ∧ s.log.count .freed = s.freed.toNat ∧
      (s.destroyed = true → s.posted = true ∨ s.freed = true) ∧
      s.acceptor.log.filterMap Tcp.Acceptor.Event.accepted = s.log.filterMap Event.fd ∧
      s.log.filterMap Event.owner = List.range s.made := by
  intro s
  have hstart : Kept heard [] (create recvBufSize idleTimeoutMs) := create_kept recvBufSize idleTimeoutMs
  obtain ⟨l, h⟩ := hstart.run inputs hheard hlegal
  have hhanded := h.listener.legal.accepted_handed
  rw [h.listener.seen, Option.toList_none, List.append_nil, ← h.fds] at hhanded
  exact ⟨l, h.path, h.nodup, fun a c hc => ⟨h.life a c hc (fun hno => by cases hno), h.here a c hc⟩,
    fun hf => (h.ended hf).2.2, h.frees, h.owed, hhanded, h.owners⟩

def patient : Env :=
  { onAccept := none, onRequest := some fun _ => [], onUpgrade := none, onConnClose := true, idleTimeoutMs := 1000
    write := fun _ => .ok, alloc := fun _ => true, post := fun _ => true, timer := fun _ => true }

-- Two connections of three, one of them with a request that waits for its response, when the server is
-- destroyed; on_conn_close calls `script`.
def twoWaiting (script : List OnConn) : List Input :=
  let w : Walk := ⟨patient, fun _ => script, true⟩
  [.listen true true true none 80 0 ⟨some 3, true, true, true, true, some 80, true⟩,
    .readable [(7, .opened), (8, .noBuffer), (9, .opened)], .conn 0 patient .opened,
    .conn 0 patient (.data (ascii "GET / HTTP/1.1\r\n\r\n")), .destroy w true, .cleanup w, .conn 0 patient .post]

-- The connection that is next on the list is half-closed.
theorem connections_leave_once_two :
    let s := (create 64 1000).run (twoWaiting [⟨0, patient, .close⟩])
    s.freed = true ∧ s.made = 2 ∧ ∀ a c, s.heap.item a = some c → Life true c ∧ c.dead = true := by
  intro s
  have hheard : ∀ i ∈ twoWaiting [⟨0, patient, .close⟩], i.Hears true := by
    simp [twoWaiting, Input.Hears]
  have hlegal : s.Legal := by
    unfold Legal Http.Legal
    decide +kernel
  have hfreed : s.freed = true ∧ s.made = 2 := by decide +kernel
  obtain ⟨l, -, -, hlife, hnil, -⟩ := connections_leave_once 64 1000 true _ hheard hlegal
  refine ⟨hfreed.1, hfreed.2, fun a c hc => ⟨(hlife a c hc).1, ?_⟩⟩
  by_contra hlive
  have hmem := (hlife a c hc).2.mp (eq_false_of_ne_true hlive)
  rw [hnil hfreed.1] at hmem
  cases hmem

-- A write ends the connection that is next on the list. It is told of twice and released twice.
example :
    let s := (create 64 1000).run
      (twoWaiting [⟨0, { patient with write := fun _ => .failed Err.write }, .write (some [1])⟩])
    (s.heap.item 0).map (fun c => fate c.log) =
      some [.onConnClose, .posted .cleanup true, .onConnClose, .posted .cleanup true, .freed] := by decide +kernel

end Server

end Sevent.Http
