import Sevent.Http.Untouched

-- A property of a connection that the parts of its functions keep is kept by the functions.
namespace Sevent.Http

-- The calls and what surrounds them.
structure Serves (env : Env) (P : Conn → Prop) : Prop where
  call : ∀ {c : Conn} (a : Api), P c → P (c.call env a)
  begin : ∀ {c : Conn} {m : Msg}, c.state = .parsing → parse c.recv = .complete m → P c → P (c.begin m)
  onRequest : ∀ {c : Conn} (r : Request), c.state = .request → P c → P (c.emit (.onRequest r))
  onUpgrade : ∀ {c : Conn} (r : Request), c.state = .request → P c → P (c.emit (.onUpgrade r))
  internal : ∀ {c : Conn} (status : Int), P c → P (c.respondInternal env status true)
  settled : ∀ {c : Conn}, c.state = .request → P c →
    P ((c.stateSet (if c.wrote then .responding else .awaitResp)).idleReset env)
  recv : ∀ {c : Conn} (b : Bytes), P c → P { c with recv := b }
  reset : ∀ {c : Conn}, c.dying = false → P c → P (c.idleReset env)
  post : ∀ {c : Conn}, P c → P (c.post env .process).2
  closeGraceful : ∀ {c : Conn}, P c → P c.closeGraceful

-- The same, with a request and its callback in one step.
structure Hosts (env : Env) (P : Conn → Prop) : Prop where
  call : ∀ {c : Conn} (a : Api), P c → P (c.call env a)
  onRequest : ∀ {c : Conn} {m : Msg} {cb : List Event → List Api}, c.state = .parsing →
    parse c.recv = .complete m → m.upgrade = false → env.onRequest = some cb → P c →
      P ((c.begin m).emit (.onRequest (m.view c.recv)))
  onUpgrade : ∀ {c : Conn} {m : Msg} {cb : List Event → List Api × Bool}, c.state = .parsing →
    parse c.recv = .complete m → m.upgrade = true → env.onUpgrade = some cb → P c →
      P ((c.begin m).emit (.onUpgrade (m.view c.recv)))
  unheard : ∀ {c : Conn} {m : Msg}, c.state = .parsing → parse c.recv = .complete m → m.upgrade = false →
    env.onRequest = none → P c → P (c.begin m)
  declined : ∀ {c : Conn} {m : Msg}, c.state = .parsing → parse c.recv = .complete m → m.upgrade = true →
    env.onUpgrade = none → P c → P ((c.begin m).respondInternal env 400 true)
  internal : ∀ {c : Conn} (status : Int), c.state = .parsing → P c → P (c.respondInternal env status true)
  settled : ∀ {c : Conn}, c.state = .request → P c →
    P ((c.stateSet (if c.wrote then .responding else .awaitResp)).idleReset env)
  recv : ∀ {c : Conn} (b : Bytes), P c → P { c with recv := b }
  reset : ∀ {c : Conn}, c.dying = false → P c → P (c.idleReset env)
  post : ∀ {c : Conn}, P c → P (c.post env .process).2
  closeGraceful : ∀ {c : Conn}, P c → P c.closeGraceful

namespace Hosts

variable {env : Env} {P : Conn → Prop} (h : Hosts env P)
include h

theorem calls (script : List Api) {c : Conn} (hc : P c) : P (c.calls env script) := by
  induction script generalizing c with
  | nil => exact hc
  | cons a rest ih => exact ih (h.call a hc)

theorem afterCallback (consumed : Nat) {c : Conn} (hc : P c) :
    P (c.requestAfterCallback env consumed) := by
  have hrecv := h.recv (c.recv.drop consumed) hc
  unfold Conn.requestAfterCallback
  dsimp only
  split
  · exact hrecv
  rename_i hstate
  split
  · exact h.settled ‹_› hrecv
  · exact h.reset (eq_false_of_ne_true fun hd => hstate (.inr (.inl hd))) hrecv

theorem dispatch {m : Msg} {c : Conn} (hstate : c.state = .parsing) (hparse : parse c.recv = .complete m)
    (hc : P c) : P ((c.begin m).dispatch env m).2 := by
  unfold Conn.dispatch
  split
  · split
    · exact h.calls _ (h.onUpgrade hstate hparse ‹_› ‹_› hc)
    · exact h.declined hstate hparse ‹_› ‹_› hc
  · rename_i hupgrade
    split
    · exact h.calls _ (h.onRequest hstate hparse (eq_false_of_ne_true hupgrade) ‹_› hc)
    · exact h.unheard hstate hparse (eq_false_of_ne_true hupgrade) ‹_› hc

theorem httpProcess (budget : Nat) {c : Conn} (hc : P c) : P (c.httpProcess env budget) := by
  induction budget generalizing c with
  | zero =>
      unfold Conn.httpProcess
      split
      · exact hc
      have hpost := h.post hc
      dsimp only
      split
      · exact hpost
      · exact h.closeGraceful hpost
  | succ budget ih =>
      unfold Conn.httpProcess
      split
      · exact hc
      rename_i hready
      have hstate : c.state = .parsing := by
        by_contra hne
        exact hready (.inr (.inr hne))
      dsimp only
      split
      · exact h.internal 400 hstate hc
      · split
        · exact h.internal 413 hstate hc
        · exact hc
      · rename_i m hparse
        have hdone := h.dispatch hstate hparse hc
        split
        · exact hdone
        split
        · exact hdone
        split
        · exact ih (h.afterCallback _ hdone)
        · exact h.afterCallback _ hdone

theorem processPost {c : Conn} (hc : P c) : P (c.processPost env) := by
  unfold Conn.processPost
  split
  · exact hc
  split
  · exact h.httpProcess _ hc
  · exact hc

theorem overflowProcess (len k : Nat) {c : Conn} (hc : P c) : P (c.overflowProcess env len k) := by
  induction k generalizing c with
  | zero => exact hc
  | succ k ih =>
      unfold Conn.overflowProcess
      split
      · exact ih (h.httpProcess _ hc)
      · exact hc

theorem receive (data : Bytes) {c : Conn} (hd : c.dying = false) (hc : P c) : P (c.receive env data) := by
  have hreset := h.reset (c := { c with recv := c.recv ++ data }) hd (h.recv _ hc)
  unfold Conn.receive
  dsimp only
  split
  · exact h.httpProcess _ hreset
  · exact hreset

theorem onData (data : Bytes) {c : Conn} (hc : P c) : P (c.onData env data) := by
  unfold Conn.onData
  split
  · exact hc
  rename_i hd
  split
  · split
    · have hroom := h.overflowProcess data.length overflowProcessLimit hc
      dsimp only
      split
      · rename_i hfit
        exact h.receive data (by simpa using hfit.1) hroom
      · exact h.closeGraceful hroom
    · exact h.closeGraceful hc
  · exact h.receive data (by simpa using hd) hc

end Hosts

namespace Serves

variable {env : Env} {P : Conn → Prop} (h : Serves env P)
include h

theorem hosts : Hosts env P where
  call := h.call
  onRequest := fun hstate hparse _ _ hc => h.onRequest _ rfl (h.begin hstate hparse hc)
  onUpgrade := fun hstate hparse _ _ hc => h.onUpgrade _ rfl (h.begin hstate hparse hc)
  unheard := fun hstate hparse _ _ hc => h.begin hstate hparse hc
  declined := fun hstate hparse _ _ hc => h.internal 400 (h.begin hstate hparse hc)
  internal := fun status _ hc => h.internal status hc
  settled := h.settled
  recv := h.recv
  reset := h.reset
  post := h.post
  closeGraceful := h.closeGraceful

theorem calls (script : List Api) {c : Conn} (hc : P c) : P (c.calls env script) := h.hosts.calls script hc

theorem processPost {c : Conn} (hc : P c) : P (c.processPost env) := h.hosts.processPost hc

theorem onData (data : Bytes) {c : Conn} (hc : P c) : P (c.onData env data) := h.hosts.onData data hc

end Serves

-- The events that go with no change of state, timer or stream.
def Event.plain : Event → Bool
  | .onAccept => true
  | .onRequest _ => true
  | .onUpgrade _ => true
  | .called _ => true
  | .returned _ => true
  | .completing _ _ => true
  | .alloc _ => true
  | _ => false

-- The parts that the calls are made of.
structure Upholds (env : Env) (P : Conn → Prop) : Prop where
  note : ∀ {c : Conn} {e : Event}, e.plain = true → P c → P (c.emit e)
  recv : ∀ {c : Conn} (b : Bytes), P c → P { c with recv := b }
  flags : ∀ {c : Conn} (closePending wrote : Bool), P c →
    P { c with closePending := closePending, wrote := wrote }
  write : ∀ {c : Conn} (data : Bytes), c.state ≠ .closing → P c → P (c.streamWrite env data).2
  closeGraceful : ∀ {c : Conn}, P c → P c.closeGraceful
  parsed : ∀ {c : Conn}, c.state ≠ .closing → c.state ≠ .released → c.closePending = false →
    .completing c.state false ∈ c.log → P c → P ((c.stateSet .parsing).idleReset env)
  streaming : ∀ {c : Conn}, c.state = .awaitResp → P c → P (c.stateSet .responding)
  post : ∀ {c : Conn}, P c → P (c.post env .process).2
  release : ∀ {c : Conn}, c.state = .request → P c →
    P (({ c with released := true }.stateSet .released).idleStop)
  begin : ∀ {c : Conn} {m : Msg}, c.state = .parsing → P c → P (c.begin m)
  settled : ∀ {c : Conn}, c.state = .request → P c →
    P ((c.stateSet (if c.wrote then .responding else .awaitResp)).idleReset env)
  reset : ∀ {c : Conn}, c.dying = false → P c → P (c.idleReset env)

namespace Conn

variable {env : Env}

theorem free_state (c : Conn) : (c.free env).state = c.state := by
  unfold Conn.free
  dsimp only
  have hnotified : (if env.onConnClose && !c.released then c.emit .onConnClose else c).state = c.state := by
    split <;> rfl
  generalize (if env.onConnClose && !c.released then c.emit .onConnClose else c) = d at hnotified ⊢
  split <;> exact hnotified

theorem terminate_state (c : Conn) :
    (c.terminate env).state = c.state ∨ (c.terminate env).state = .closed := by
  unfold Conn.terminate
  split
  · exact .inl rfl
  · right
    dsimp only
    rw [free_state]
    exact idleStop_state _

-- A write leaves the state alone or ends the connection.
theorem streamWrite_state (env : Env) (c : Conn) (data : Bytes) :
    (c.streamWrite env data).2.state = c.state ∨ (c.streamWrite env data).2.state = .closed := by
  unfold Conn.streamWrite
  split
  · exact .inl rfl
  dsimp only
  split
  · dsimp only
    split
    · exact .inl rfl
    · exact terminate_state (c.emit _)
  · dsimp only
    split
    · exact .inl rfl
    · exact terminate_state (c.emit _)
  · exact .inl rfl

theorem respondBuild_state (env : Env) (c : Conn) (resp : Response) (internalClose : Bool) :
    (c.respondBuild env resp internalClose).2.2.state = c.state ∨
      (c.respondBuild env resp internalClose).2.2.state = .closed := by
  unfold Conn.respondBuild
  split
  · exact .inl rfl
  dsimp only
  split
  · exact .inl rfl
  split
  · exact .inl rfl
  rename_i head _
  have hhead := streamWrite_state env (c.emit (.alloc (env.alloc c.log))) head
  generalize (c.emit (.alloc (env.alloc c.log))).streamWrite env head = w at hhead ⊢
  have hbody := streamWrite_state env w.2 ((resp.body.getD []).take resp.bodyLen)
  have htwo : (w.2.streamWrite env ((resp.body.getD []).take resp.bodyLen)).2.state = c.state ∨
      (w.2.streamWrite env ((resp.body.getD []).take resp.bodyLen)).2.state = .closed := by
    rcases hbody with h | h
    · rw [h]
      exact hhead
    · exact .inr h
  split
  · exact hhead
  split
  · split <;> exact htwo
  · exact hhead

end Conn

namespace Upholds

variable {env : Env} {P : Conn → Prop} (h : Upholds env P)
include h

theorem respondBuild (resp : Response) (internalClose : Bool) {c : Conn} (hstate : c.state ≠ .closing)
    (hc : P c) : P (c.respondBuild env resp internalClose).2.2 := by
  have halloc := h.note (e := .alloc (env.alloc c.log)) rfl hc
  unfold Conn.respondBuild
  split
  · exact hc
  dsimp only
  split
  · exact halloc
  split
  · exact halloc
  rename_i head _
  have hhead := h.write (c := c.emit (.alloc (env.alloc c.log))) head hstate halloc
  have hsame := Conn.streamWrite_state env (c.emit (.alloc (env.alloc c.log))) head
  generalize (c.emit (.alloc (env.alloc c.log))).streamWrite env head = w at hhead hsame ⊢
  have hopen : w.2.state ≠ .closing := by
    rcases hsame with h | h
    · rw [h]
      exact hstate
    · rw [h]
      decide
  have hbody := h.write ((resp.body.getD []).take resp.bodyLen) hopen hhead
  split
  · exact hhead
  split
  · split <;> exact hbody
  · exact hhead

theorem complete (wasAsync : Bool) {c : Conn} (hclosing : c.state ≠ .closing)
    (hreleased : c.state ≠ .released) (hc : P c) : P (c.responseComplete env wasAsync) := by
  have hnote := h.note (e := .completing c.state c.closePending) rfl hc
  unfold Conn.responseComplete
  dsimp only
  split
  · exact h.closeGraceful hnote
  · rename_i hpending
    have hpending : c.closePending = false := by simpa [Conn.emit] using hpending
    have hparsed := h.parsed (c := c.emit (.completing c.state c.closePending)) hclosing hreleased hpending
      (by rw [hpending]; exact List.mem_append_right _ (List.mem_singleton.mpr rfl)) hnote
    split
    · have hpost := h.post hparsed
      split
      · exact hpost
      · exact h.closeGraceful hpost
    · exact hparsed

theorem internal (status : Int) {c : Conn} (hc : P c) : P (c.respondInternal env status true) := by
  unfold Conn.respondInternal
  split
  · exact hc
  rename_i hd
  dsimp only
  have hstate : c.state ≠ .closing := fun hs => hd (by simp [Conn.dying, hs])
  have hbuild := h.respondBuild
    { status := status, text := none, close := false, body := none, bodyLen := 0, headers := [] }
    true hstate hc
  split
  · exact hbuild
  · exact h.closeGraceful (h.flags true _ hbuild)

theorem respond (resp : Response) {c : Conn} (hc : P c) : P (c.respond env resp).2 := by
  unfold Conn.respond
  split
  · exact hc
  rename_i hstate
  split
  · exact hc
  have hcases : c.state = .request ∨ c.state = .awaitResp := by tauto
  have hbuild := h.respondBuild resp false (by rcases hcases with h | h <;> rw [h] <;> decide) hc
  have hsame := Conn.respondBuild_state env c resp false
  dsimp only
  split
  · exact hbuild
  · refine h.complete _ ?_ ?_ (h.flags _ _ hbuild)
    · dsimp only
      rcases hsame with h | h <;> rw [h]
      · rcases hcases with h | h <;> rw [h] <;> decide
      · decide
    · dsimp only
      rcases hsame with h | h <;> rw [h]
      · rcases hcases with h | h <;> rw [h] <;> decide
      · decide

theorem writeData (data : Option Bytes) {c : Conn} (hc : P c) : P (c.write env data).2 := by
  unfold Conn.write
  cases data with
  | none => exact hc
  | some data =>
  dsimp only
  split
  · exact hc
  rename_i hstate
  split
  · exact hc
  have hcases : c.state = .request ∨ c.state = .awaitResp ∨ c.state = .responding := by tauto
  have hw := h.write data (by rcases hcases with h | h | h <;> rw [h] <;> decide) hc
  split
  · exact hw
  split
  · exact h.streaming ‹_› (h.flags _ true hw)
  · exact h.flags _ true hw

theorem writeEnd {c : Conn} (hc : P c) : P (c.writeEnd env).2 := by
  unfold Conn.writeEnd
  split
  · exact hc
  rename_i hstate
  have hcases : c.state = .request ∨ c.state = .responding := by tauto
  refine h.complete _ ?_ ?_ hc
  · rcases hcases with h | h <;> rw [h] <;> decide
  · rcases hcases with h | h <;> rw [h] <;> decide

theorem close {c : Conn} (hc : P c) : P c.close := by
  unfold Conn.close
  split
  · exact hc
  · exact h.closeGraceful (h.flags true _ hc)

theorem released {c : Conn} (hc : P c) : P c.release.2 := by
  unfold Conn.release
  split
  · exact hc
  split
  · exact hc
  · exact h.release (by tauto) hc

theorem call (a : Api) {c : Conn} (hc : P c) : P (c.call env a) := by
  have hcalled := h.note (e := .called a) rfl hc
  unfold Conn.call
  cases a with
  | respond resp => exact h.note rfl (h.respond resp hcalled)
  | write data => exact h.note rfl (h.writeData data hcalled)
  | writeEnd => exact h.note rfl (h.writeEnd hcalled)
  | close => exact h.note rfl (h.close hcalled)
  | release => exact h.note rfl (h.released hcalled)

theorem serves : Serves env P where
  call := fun a hc => h.call a hc
  begin := fun hstate _ hc => h.begin hstate hc
  onRequest := fun _ _ hc => h.note rfl hc
  onUpgrade := fun _ _ hc => h.note rfl hc
  internal := fun status hc => h.internal status hc
  settled := fun hstate hc => h.settled hstate hc
  recv := fun b hc => h.recv b hc
  reset := fun hd hc => h.reset hd hc
  post := fun hc => h.post hc
  closeGraceful := fun hc => h.closeGraceful hc

end Upholds

-- ---- logs only grow ----

namespace Conn

variable {env : Env} {L : List Event} {c : Conn}

theorem emit_grows (e : Event) (h : L <+: c.log) : L <+: (c.emit e).log := h.trans (List.prefix_append _ _)

theorem idleStop_grows (h : L <+: c.log) : L <+: c.idleStop.log := by
  unfold Conn.idleStop
  split
  · exact emit_grows _ h
  · exact h

theorem idleReset_grows (h : L <+: c.log) : L <+: (c.idleReset env).log := by
  unfold Conn.idleReset
  split
  · exact h
  · exact emit_grows _ (idleStop_grows h)

theorem closeGraceful_grows (h : L <+: c.log) : L <+: c.closeGraceful.log := by
  have hset : L <+: (c.stateSet .closing).log := emit_grows (c := c) _ h
  unfold Conn.closeGraceful
  dsimp only
  split
  · exact h
  split
  · exact emit_grows _ hset
  · exact hset

theorem terminate_grows (h : L <+: c.log) : L <+: (c.terminate env).log := by
  unfold Conn.terminate
  split
  · exact h
  have hstopped : L <+: ((c.stateSet .closed).idleStop).log :=
    idleStop_grows (emit_grows (c := c) (.state c.state .closed) h)
  have hfree : ∀ d : Conn, L <+: d.log → L <+: (d.free env).log := by
    intro d hd
    have hnotified : L <+: (if env.onConnClose && !d.released then d.emit .onConnClose else d).log := by
      split
      · exact emit_grows _ hd
      · exact hd
    unfold Conn.free
    dsimp only
    generalize (if env.onConnClose && !d.released then d.emit .onConnClose else d) = e at hnotified ⊢
    have hposted : L <+: (e.post env .cleanup).2.log := emit_grows (c := e) _ hnotified
    split
    · exact hposted
    · exact emit_grows (c := (e.post env .cleanup).2) .freed hposted
  exact hfree _ hstopped

theorem grows_upheld (env : Env) (L : List Event) : Upholds env fun c => L <+: c.log where
  note := fun _ h => emit_grows _ h
  recv := fun _ h => h
  flags := fun _ _ h => h
  write := fun {c} data _ h => by
    have hwritten : L <+: (c.emit (.written data (env.write c.log))).log := emit_grows _ h
    unfold Conn.streamWrite
    split
    · exact h
    dsimp only
    split
    · dsimp only
      split
      · exact hwritten
      · exact terminate_grows hwritten
    · dsimp only
      split
      · exact hwritten
      · exact terminate_grows hwritten
    · exact hwritten
  closeGraceful := fun h => closeGraceful_grows h
  parsed := fun {c} _ _ _ _ h => idleReset_grows (emit_grows (c := c) (.state c.state .parsing) h)
  streaming := fun {c} _ h => emit_grows (c := c) _ h
  post := fun {c} h => emit_grows (c := c) _ h
  release := fun {c} _ h => idleStop_grows (emit_grows (c := c) (.state c.state .released) h)
  begin := fun {c m} _ h => emit_grows (c := c) (.state c.state .request) h
  settled := fun {c} _ h =>
    idleReset_grows (emit_grows (c := c) (.state c.state (if c.wrote then .responding else .awaitResp)) h)
  reset := fun _ h => idleReset_grows h

theorem step_grows (s : Step) (h : L <+: c.log) : L <+: (c.step env s).log := by
  have hserves := (grows_upheld env L).serves
  have hend : L <+: (c.onClose env).log := by
    unfold Conn.onClose
    split
    · exact h
    · exact terminate_grows h
  cases s with
  | opened =>
      simp only [Conn.step]
      split
      · have hafter : ∀ d : Conn, L <+: d.log →
            L <+: (if d.dying then d.idleReset env else (d.stateSet .parsing).idleReset env).log := by
          intro d hd
          split
          · exact idleReset_grows hd
          · exact idleReset_grows (emit_grows (c := d) (.state d.state .parsing) hd)
        unfold Conn.onOpen
        split
        · exact h
        split
        · exact hafter _ (hserves.calls _ (emit_grows _ h))
        · exact hafter _ h
      · exact h
  | data d =>
      simp only [Conn.step]
      split
      · exact hserves.onData d h
      · exact h
  | eof =>
      simp only [Conn.step]
      split
      · exact hend
      · exact h
  | error =>
      simp only [Conn.step]
      split
      · exact hend
      · exact h
  | idleTimeout =>
      simp only [Conn.step]
      split
      · unfold Conn.onIdleTimeout
        dsimp only
        split
        · exact terminate_grows (idleStop_grows h)
        · exact idleStop_grows h
      · exact h
  | post =>
      simp only [Conn.step]
      split
      · exact h
      · exact hserves.processPost (c := { c with posts := _ }) h
      · exact emit_grows (c := c) .freed h
  | call a =>
      simp only [Conn.step]
      split
      · exact h
      · exact hserves.call a h

theorem run_grows (steps : List Step) (h : L <+: c.log) : L <+: (c.run env steps).log := by
  unfold run
  induction steps generalizing c with
  | nil => exact h
  | cons s rest ih => exact ih (step_grows s h)

theorem run_append (a b : List Step) (c : Conn) : c.run env (a ++ b) = (c.run env a).run env b := by
  simp [run]

end Conn

end Sevent.Http
