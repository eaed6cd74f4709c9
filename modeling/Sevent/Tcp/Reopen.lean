import Sevent.Tcp.WriteQueue
import Sevent.Tcp.Ownership

-- An object that is opened again: what is left of the earlier connections, and what it does.
namespace Sevent.Tcp

open Chain (Queue)

namespace Conn

-- The nodes of the two queues may have other addresses.
structure Alike (c c' : Conn) : Prop where
  fd : c'.fd = c.fd
  ioHandle : c'.ioHandle = c.ioHandle
  state : c'.state = c.state
  destroyed : c'.destroyed = c.destroyed
  pending : c'.shutdownWrPending = c.shutdownWrPending
  log : c'.log = c.log
  queue : ∃ l l', Queued c l ∧ Queued c' l' ∧ l.map Prod.snd = l'.map Prod.snd

variable {c c' : Conn}

theorem Alike.emit (h : Alike c c') (e : Event) : Alike (c.emit e) (c'.emit e) := by
  obtain ⟨l, l', hl, hl', heq⟩ := h.queue
  exact ⟨h.fd, h.ioHandle, h.state, h.destroyed, h.pending, by simp [Conn.emit, h.log],
    l, l', hl.emit e, hl'.emit e, heq⟩

theorem Alike.head (h : Alike c c') : c'.queue.head = none ↔ c.queue.head = none := by
  obtain ⟨l, l', hl, hl', heq⟩ := h.queue
  rw [hl.holds.head_eq_none, hl'.holds.head_eq_none, ← List.map_eq_nil_iff (f := Prod.snd), ← heq,
    List.map_eq_nil_iff]

theorem Alike.isSome (h : Alike c c') : c'.queue.head.isSome = c.queue.head.isSome := by
  have hhead := h.head
  cases hc : c.queue.head <;> cases hc' : c'.queue.head <;> simp_all

theorem Alike.count (h : Alike c c') : c'.queue.count = c.queue.count := by
  obtain ⟨l, l', hl, hl', heq⟩ := h.queue
  rw [hl.holds.count, hl'.holds.count, ← List.length_map (f := Prod.snd), ← heq, List.length_map]

theorem Alike.remaining (h : Alike c c') : c'.remaining = c.remaining := by
  rw [Conn.remaining, Conn.remaining, h.count]

theorem Alike.alloc (h : Alike c c') (env : Env) :
    (c'.alloc env).1 = (c.alloc env).1 ∧ Alike (c.alloc env).2 (c'.alloc env).2 := by
  unfold Conn.alloc
  rw [h.log]
  exact ⟨rfl, h.emit _⟩

-- What the fields but the queue are set to.
theorem Alike.fields (h : Alike c c') {d d' : Conn} (hfd : d'.fd = d.fd)
    (hio : d'.ioHandle = d.ioHandle) (hstate : d'.state = d.state)
    (hdestroyed : d'.destroyed = d.destroyed) (hpending : d'.shutdownWrPending = d.shutdownWrPending)
    (hlog : d'.log = d.log) (hq : d.queue = c.queue) (hq' : d'.queue = c'.queue)
    (ha : d.nextAddr = c.nextAddr) (ha' : d'.nextAddr = c'.nextAddr) : Alike d d' := by
  obtain ⟨l, l', hl, hl', heq⟩ := h.queue
  exact ⟨hfd, hio, hstate, hdestroyed, hpending, hlog, l, l',
    ⟨hq ▸ hl.holds, by rw [hq, ha]; exact hl.fresh, hl.offset⟩,
    ⟨hq' ▸ hl'.holds, by rw [hq', ha']; exact hl'.fresh, hl'.offset⟩, heq⟩

theorem Alike.handle (h : Alike c c') (io : Option IoHandle) :
    Alike { c with ioHandle := io } { c' with ioHandle := io } :=
  h.fields h.fd rfl h.state h.destroyed h.pending h.log rfl rfl rfl rfl

theorem Alike.settled (h : Alike c c') (state : State) (fd : Int) :
    Alike { c with state := state, fd := fd } { c' with state := state, fd := fd } :=
  h.fields rfl h.ioHandle rfl h.destroyed h.pending h.log rfl rfl rfl rfl

theorem Alike.popped (h : Alike c c') {a a' : Nat} {n n' : WriteNode} {l l' : List (Nat × WriteNode)}
    (hl : Queued c ((a, n) :: l)) (hl' : Queued c' ((a', n') :: l'))
    (heq : l.map Prod.snd = l'.map Prod.snd) :
    Alike { c with queue := c.queue.pop } { c' with queue := c'.queue.pop } :=
  ⟨h.fd, h.ioHandle, h.state, h.destroyed, h.pending, h.log, l, l', hl.pop, hl'.pop, heq⟩

theorem Alike.item (h : Alike c c') {a a' : Nat} {n n' m : WriteNode} {l l' : List (Nat × WriteNode)}
    (hl : Queued c ((a, n) :: l)) (hl' : Queued c' ((a', n') :: l'))
    (heq : l.map Prod.snd = l'.map Prod.snd) (hm : m.offset < m.data.length) :
    Alike { c with queue := c.queue.setItem a m } { c' with queue := c'.queue.setItem a' m } :=
  ⟨h.fd, h.ioHandle, h.state, h.destroyed, h.pending, h.log, (a, m) :: l, (a', m) :: l',
    hl.setItem hm, hl'.setItem hm, by simp [heq]⟩

theorem queued_empty {d : Conn} (hq : d.queue = .empty) : Queued d [] :=
  ⟨hq ▸ .empty, fun _ _ => by rw [hq]; rfl, nofun⟩

-- The way back to IDLE.
theorem Alike.closeIo (h : Alike c c') : Alike c.closeIo c'.closeIo := by
  have hunregister : Alike (if c.ioHandle.isSome then { c.emit .ioUnregister with ioHandle := none } else c)
      (if c'.ioHandle.isSome then { c'.emit .ioUnregister with ioHandle := none } else c') := by
    rw [h.ioHandle]
    split
    · have hemit := h.emit .ioUnregister
      exact hemit.fields hemit.fd rfl hemit.state hemit.destroyed hemit.pending hemit.log rfl rfl rfl rfl
    · exact h
  unfold Conn.closeIo
  dsimp only
  generalize (if c.ioHandle.isSome then { c.emit .ioUnregister with ioHandle := none } else c) = d
    at hunregister ⊢
  generalize (if c'.ioHandle.isSome then { c'.emit .ioUnregister with ioHandle := none } else c') = d'
    at hunregister ⊢
  rw [hunregister.fd]
  split
  · have hemit := hunregister.emit .closeFd
    exact hemit.fields rfl hemit.ioHandle hemit.state hemit.destroyed hemit.pending hemit.log
      rfl rfl rfl rfl
  · exact hunregister

theorem Alike.close (h : Alike c c') : Alike c.close c'.close :=
  have hclose := h.closeIo
  ⟨hclose.fd, hclose.ioHandle, rfl, hclose.destroyed, hclose.pending, hclose.log, [], [],
    queued_empty rfl, queued_empty rfl, rfl⟩

theorem Alike.teardown (h : Alike c c') (err : Int) : Alike (teardown err c) (teardown err c') := by
  unfold Conn.teardown
  rw [h.destroyed, h.state]
  split
  · exact h
  · have hclose : Alike { c.closeIo.queueClear with state := .idle }
        { c'.closeIo.queueClear with state := .idle } := h.close
    dsimp only
    split
    · exact hclose.emit _
    · exact hclose.emit _

theorem Alike.destroy (h : Alike c c') : Alike c.destroy c'.destroy :=
  (show Alike { c with destroyed := true } { c' with destroyed := true } from h.fields
    h.fd h.ioHandle h.state rfl h.pending h.log rfl rfl rfl rfl).close

theorem Alike.updateIo (h : Alike c c') (env : Env) : Alike (updateIo env c) (updateIo env c') := by
  have hunregister : Alike (if c.ioHandle.isSome then c.emit .ioUnregister else c)
      (if c'.ioHandle.isSome then c'.emit .ioUnregister else c') := by
    rw [h.ioHandle]
    split
    · exact h.emit _
    · exact h
  unfold Conn.updateIo
  dsimp only
  rw [h.fd, h.isSome]
  generalize (if c.ioHandle.isSome then c.emit .ioUnregister else c) = d at hunregister ⊢
  generalize (if c'.ioHandle.isSome then c'.emit .ioUnregister else c') = d' at hunregister ⊢
  rw [hunregister.log]
  split
  · exact (hunregister.emit _).handle _
  · exact ((hunregister.emit _).handle _).teardown _

theorem flushLoop_alike (env : Env) (fuel : Nat) (h : Alike c c') :
    (flushLoop env fuel c').1 = (flushLoop env fuel c).1 ∧
      Alike (flushLoop env fuel c).2 (flushLoop env fuel c').2 := by
  induction fuel generalizing c c' with
  | zero => exact ⟨rfl, h⟩
  | succ fuel ih =>
      obtain ⟨l, l', hl, hl', heq⟩ := h.queue
      unfold flushLoop
      rw [hl.holds.front, hl'.holds.front, h.log]
      cases l with
      | nil =>
          obtain rfl : l' = [] := List.map_eq_nil_iff.mp heq.symm
          exact ⟨rfl, h⟩
      | cons p rest =>
          obtain ⟨a, n⟩ := p
          cases l' with
          | nil => cases heq
          | cons p' rest' =>
              obtain ⟨a', n'⟩ := p'
              obtain ⟨rfl, hrest⟩ : n = n' ∧ rest.map Prod.snd = rest'.map Prod.snd := by
                simpa using heq
              have hsend := h.emit (.send (n.data.drop n.offset) (env.send c.log (n.data.drop n.offset)))
              have hq := hl.emit (.send (n.data.drop n.offset) (env.send c.log (n.data.drop n.offset)))
              have hq' := hl'.emit (.send (n.data.drop n.offset) (env.send c.log (n.data.drop n.offset)))
              simp only [List.head?_cons]
              generalize c.emit (.send (n.data.drop n.offset) (env.send c.log (n.data.drop n.offset))) = d
                at hsend hq ⊢
              generalize c'.emit (.send (n.data.drop n.offset) (env.send c.log (n.data.drop n.offset))) = d'
                at hsend hq' ⊢
              have hpop := hsend.popped hq hq' hrest
              split
              · split
                · rename_i hpart
                  refine ⟨?_, hsend.item hq hq' hrest hpart⟩
                  dsimp only
                  rw [hsend.remaining]
                · exact ih hpop
              · exact ih hpop
              · refine ⟨?_, hsend⟩
                dsimp only
                rw [hsend.remaining]
              · exact ⟨rfl, hpop⟩

theorem Alike.flush (h : Alike c c') (env : Env) :
    (c'.flush env).1 = (c.flush env).1 ∧ Alike (c.flush env).2 (c'.flush env).2 := by
  unfold Conn.flush
  rw [h.count]
  exact flushLoop_alike env _ h

theorem Alike.maybeShutdownWr (h : Alike c c') : Alike c.maybeShutdownWr c'.maybeShutdownWr := by
  unfold Conn.maybeShutdownWr
  simp only [h.pending, h.head]
  split
  · have hemit := h.emit (.shutdown true false)
    exact hemit.fields hemit.fd hemit.ioHandle hemit.state hemit.destroyed rfl hemit.log rfl rfl rfl rfl
  · exact h

theorem Alike.onWriteReady (h : Alike c c') (env : Env) :
    Alike (onWriteReady env c) (onWriteReady env c') := by
  obtain ⟨hrc, hflush⟩ := h.flush env
  unfold Conn.onWriteReady
  rw [h.destroyed, h.state]
  split
  · exact h
  simp only [hrc, hflush.head]
  split
  · exact hflush.teardown _
  split
  · exact hflush.maybeShutdownWr.updateIo env
  · exact hflush

theorem Alike.onReadable (h : Alike c c') (n : ReadRes) : Alike (onReadable n c) (onReadable n c') := by
  unfold Conn.onReadable
  rw [h.destroyed]
  split
  · exact h
  · split
    · exact h.teardown _
    · exact h.emit _
    · exact h
    · exact h.teardown _

theorem Alike.enqueue (h : Alike c c') (env : Env) {data : Bytes} (hdata : data ≠ []) :
    (c'.enqueue env data).1 = (c.enqueue env data).1 ∧
      Alike (c.enqueue env data).2 (c'.enqueue env data).2 := by
  obtain ⟨hok, halloc⟩ := h.alloc env
  unfold Conn.enqueue
  simp only [hok]
  split
  · exact ⟨rfl, halloc⟩
  · obtain ⟨l, l', hl, hl', heq⟩ := halloc.queue
    refine ⟨rfl, halloc.fd, halloc.ioHandle, halloc.state, halloc.destroyed, halloc.pending, halloc.log,
      _, _, hl.push hdata, hl'.push hdata, ?_⟩
    simp [heq]

theorem Alike.write (h : Alike c c') (env : Env) (data : Arg) :
    (write env data c').1 = (write env data c).1 ∧
      Alike (write env data c).2 (write env data c').2 := by
  unfold Conn.write
  split
  · exact ⟨rfl, h⟩
  rename_i hnull
  rw [h.destroyed, h.state]
  split
  · exact ⟨rfl, h⟩
  split
  · exact ⟨rfl, h⟩
  rename_i hlen
  have hdata : data.toBytes ≠ [] := by
    cases data with
    | null n =>
        cases n with
        | zero => exact absurd rfl hlen
        | succ n => exact absurd rfl (hnull n)
    | bytes b => exact fun hnil => hlen (congrArg List.length hnil)
  obtain ⟨hok, halloc⟩ := h.alloc env
  obtain ⟨hok', henq⟩ := halloc.enqueue env hdata
  obtain ⟨hrc, hflush⟩ := henq.flush env
  simp only [hok, hok', hrc, hflush.isSome]
  split
  · exact ⟨rfl, halloc⟩
  split
  · exact ⟨rfl, henq⟩
  split
  · exact ⟨rfl, hflush.teardown _⟩
  split
  · exact ⟨rfl, hflush.updateIo env⟩
  · exact ⟨rfl, hflush.maybeShutdownWr⟩

theorem Alike.shutdown (h : Alike c c') (wr rd : Bool) :
    (c'.shutdown wr rd).1 = (c.shutdown wr rd).1 ∧
      Alike (c.shutdown wr rd).2 (c'.shutdown wr rd).2 := by
  have hcond : (c'.destroyed = true ∨ c'.state ≠ .opened) = (c.destroyed = true ∨ c.state ≠ .opened) := by
    rw [h.destroyed, h.state]
  unfold Conn.shutdown
  simp only [hcond]
  split
  · exact ⟨rfl, h⟩
  have hwr : Alike
      (if wr then
        if c.queue.head.isSome then { c with shutdownWrPending := true }
        else c.emit (.shutdown true false)
      else c)
      (if wr then
        if c'.queue.head.isSome then { c' with shutdownWrPending := true }
        else c'.emit (.shutdown true false)
      else c') := by
    rw [h.isSome]
    split
    · split
      · exact h.fields h.fd h.ioHandle h.state h.destroyed rfl h.log rfl rfl rfl rfl
      · exact h.emit _
    · exact h
  dsimp only
  refine ⟨rfl, ?_⟩
  split
  · exact hwr.emit _
  · exact hwr

end Conn

-- ---- nothing is queued outside of OPEN ----

namespace Conn

def Clear (c : Conn) : Prop := c.state ≠ .opened → c.queue = .empty

theorem teardown_clear (err : Int) {c : Conn} (h : Clear c) : Clear (teardown err c) := by
  unfold teardown
  split
  · exact h
  · dsimp only
    split <;> exact fun _ => rfl

theorem updateIo_clear (env : Env) {c : Conn} (h : c.state = .opened) : Clear (updateIo env c) := by
  unfold updateIo
  dsimp only
  have hstate : (if c.ioHandle.isSome then c.emit .ioUnregister else c).state = .opened := by
    split <;> exact h
  generalize (if c.ioHandle.isSome then c.emit .ioUnregister else c) = d at hstate ⊢
  split
  · exact fun hne => absurd hstate hne
  · exact teardown_clear _ fun hne => absurd hstate hne

theorem onWriteReady_clear (env : Env) {c : Conn} (h : Clear c) : Clear (onWriteReady env c) := by
  unfold onWriteReady
  split
  · exact h
  · rename_i hopen
    rw [not_or, not_not] at hopen
    have hstate : (c.flush env).2.state = .opened := (flush_sends env c).state.trans hopen.2
    dsimp only
    split
    · exact teardown_clear _ fun hne => absurd hstate hne
    split
    · exact updateIo_clear env ((maybeShutdownWr_sends _).state.trans hstate)
    · exact fun hne => absurd hstate hne

theorem onReadable_clear (n : ReadRes) {c : Conn} (h : Clear c) : Clear (onReadable n c) := by
  unfold onReadable
  split
  · exact h
  · split
    · exact teardown_clear _ h
    · exact h
    · exact h
    · exact teardown_clear _ h

theorem write_clear (env : Env) (data : Arg) {c : Conn} (h : Clear c) :
    Clear (write env data c).2 := by
  unfold write
  split
  · exact h
  split
  · exact h
  rename_i hopen
  rw [not_or, not_not] at hopen
  split
  · exact h
  have halloc : (c.alloc env).2.state = .opened := hopen.2
  have henq := (enqueue_sends env data.toBytes (c.alloc env).2).state.trans halloc
  have hflush := (flush_sends env ((c.alloc env).2.enqueue env data.toBytes).2).state.trans henq
  dsimp only
  split
  · exact fun hne => absurd halloc hne
  split
  · exact fun hne => absurd henq hne
  split
  · exact teardown_clear _ fun hne => absurd hflush hne
  split
  · exact updateIo_clear env hflush
  · exact fun hne => absurd ((maybeShutdownWr_sends _).state.trans hflush) hne

theorem shutdown_clear (wr rd : Bool) {c : Conn} (h : Clear c) : Clear (c.shutdown wr rd).2 := by
  unfold shutdown
  split
  · exact h
  · rename_i hopen
    rw [not_or, not_not] at hopen
    intro hne
    refine absurd ?_ hne
    cases wr <;> cases rd <;> cases c.queue.head <;> exact hopen.2

end Conn

namespace Object

theorem opened_clear (env : Env) {o : Object} : (opened env o).conn.Clear := by
  have hio : Conn.Clear (Conn.updateIo env { o.conn with state := .opened }) :=
    Conn.updateIo_clear env rfl
  unfold opened onConn
  dsimp only
  split <;> exact hio

theorem registerConnectIo_clear (env : Env) (fd : Nat) (ms : Int) (timerOk : Bool) {o : Object}
    (h : o.conn.queue = .empty) : (o.registerConnectIo env fd ms timerOk).2.conn.Clear := by
  unfold registerConnectIo ioRegister
  dsimp only
  generalize (if env.ioRegister o.conn.log = true then
    some (IoHandle.mk fd none (some .onConnectReady)) else none) = io
  generalize (if ms = 0 then connectTimeoutDefault else ms) = t
  split
  · exact fun _ => h
  split
  · split
    · exact fun _ => h
    · refine fun _ => ?_
      unfold Conn.closeIo
      dsimp only
      split <;> split <;> exact h
  · exact fun _ => h

theorem step_clear (env : Env) {o : Object} (h : o.conn.Clear) (i : ObjectInput) :
    (o.step env i).conn.Clear := by
  unfold step
  split
  · exact h
  cases i with
  | openConn host port init recvOk res timerOk =>
      simp only [returned, openConn]
      split
      · rename_i host init
        split
        · exact h
        rename_i hcheck
        have hidle : o.conn.state = .idle := by
          simp only [Bool.or_eq_true, decide_eq_true_eq, not_or, not_not] at hcheck
          exact hcheck.2
        have hempty : (o.setupRecv init.recvBufSize recvOk).2.conn.queue = .empty := by
          rw [(setupRecv_conn init.recvBufSize recvOk o).1]
          exact h (by simp [hidle])
        split
        · exact fun _ => hempty
        generalize (o.setupRecv init.recvBufSize recvOk).2 = o₁ at hempty ⊢
        split
        · exact fun _ => hempty
        · exact fun _ => hempty
        · exact registerConnectIo_clear env _ init.connectTimeoutMs timerOk hempty
      · exact h
  | accept fd fcntlOk init recvOk =>
      simp only [returned, accept]
      split
      · rename_i init
        split
        · exact h
        rename_i hcheck
        have hidle : o.conn.state = .idle := by
          simp only [Bool.or_eq_true, decide_eq_true_eq, not_or, not_not] at hcheck
          exact hcheck.2
        have hempty : (o.setupRecv init.recvBufSize recvOk).2.conn.queue = .empty := by
          rw [(setupRecv_conn init.recvBufSize recvOk o).1]
          exact h (by simp [hidle])
        split
        · exact h
        split
        · exact fun _ => hempty
        split
        · exact fun _ => hempty
        · exact fun _ => hempty
      · exact h
  | connectReady soOk =>
      dsimp only
      split
      · unfold onConnectReady
        split
        · exact h
        dsimp only
        split
        · exact Conn.teardown_clear _ h
        · exact opened_clear env
      · exact h
  | connectTimeout =>
      dsimp only
      split
      · unfold onConnectTimeout
        split
        · exact h
        · exact Conn.teardown_clear _ h
      · exact h
  | firstReady =>
      dsimp only
      split
      · unfold onFirstReady
        split
        · exact h
        · exact opened_clear env
      · exact h
  | readable n =>
      dsimp only
      split
      · exact Conn.onReadable_clear (c := o.conn.emit .read) n h
      · exact h
  | writeReady =>
      simp only [onConn, Conn.step]
      split
      · exact Conn.onWriteReady_clear env h
      · exact h
  | write data => exact Conn.write_clear env data h
  | shutdown wr rd => exact Conn.shutdown_clear wr rd h
  | setCallbacks cb => exact h
  | setNoDelay on =>
      simp only [setNoDelay]
      split <;> exact h
  | close => exact fun _ => rfl
  | destroy => exact fun _ => rfl

theorem run_sane_clear (env : Env) (inputs : List ObjectInput) {o : Object} (h : o.Sane)
    (hc : o.conn.Clear) : (o.run env inputs).Sane ∧ (o.run env inputs).conn.Clear := by
  unfold run
  induction inputs generalizing o with
  | nil => exact ⟨h, hc⟩
  | cons i rest ih => exact ih (step_sane env h i) (step_clear env hc i)

-- ---- two objects that are told the same ----

-- The second object may have no receive buffer yet.
structure Again (o o' : Object) : Prop where
  conn : o.conn.Alike o'.conn
  timer : o'.connectTimer = o.connectTimer
  recvBuf : o'.recvBuf = o.recvBuf ∨ o'.recvBuf = none

-- An allocation that `o` can do without succeeds.
def Granted (o : Object) : ObjectInput → Prop
  | .openConn _ _ (some init) recvOk _ _ | .accept _ _ (some init) recvOk =>
      o.recvBuf = some (capacity init.recvBufSize) → recvOk = true
  | _ => True

def GrantedAll (env : Env) : Object → List ObjectInput → Prop
  | _, [] => True
  | o, i :: rest => Granted o i ∧ GrantedAll env (o.step env i) rest

variable {o o' : Object}

theorem Again.emit (h : Again o o') (e : Event) : Again (o.emit e) (o'.emit e) :=
  ⟨h.conn.emit e, h.timer, h.recvBuf⟩

theorem Again.setupRecv (h : Again o o') (size : Nat) {ok : Bool}
    (hok : o.recvBuf = some (capacity size) → ok = true) :
    (o'.setupRecv size ok).1 = (o.setupRecv size ok).1 ∧
      Again (o.setupRecv size ok).2 (o'.setupRecv size ok).2 := by
  unfold Object.setupRecv
  rcases h.recvBuf with hsame | hnone
  · rw [hsame]
    split
    · exact ⟨rfl, h⟩
    · exact ⟨rfl, h.conn, h.timer, .inl rfl⟩
  · rw [hnone, if_neg (by simp)]
    by_cases hsome : o.recvBuf = some (capacity size)
    · rw [if_pos hsome, hok hsome]
      exact ⟨rfl, h.conn, h.timer, .inl hsome.symm⟩
    · rw [if_neg hsome]
      exact ⟨rfl, h.conn, h.timer, .inl rfl⟩

theorem Again.returned {r r' : Int × Object} (hrc : r'.1 = r.1) (h : Again r.2 r'.2) :
    Again (returned r) (returned r') := by
  unfold Object.returned
  rw [hrc]
  exact h.emit _

theorem Again.onConn (h : Again o o') {f : Conn → Conn} (hf : (f o.conn).Alike (f o'.conn)) :
    Again (o.onConn f) (o'.onConn f) :=
  ⟨hf, by simp only [Object.onConn, h.timer, hf.state], h.recvBuf⟩

theorem Again.ioRegister (h : Again o o') (env : Env) (handle : IoHandle) :
    Again (o.ioRegister env handle) (o'.ioRegister env handle) := by
  unfold Object.ioRegister
  dsimp only
  rw [h.conn.log]
  exact ⟨(h.conn.emit _).handle _, h.timer, h.recvBuf⟩

theorem Again.registerConnectIo (h : Again o o') (env : Env) (fd : Nat) (ms : Int)
    (timerOk : Bool) :
    (o'.registerConnectIo env fd ms timerOk).1 = (o.registerConnectIo env fd ms timerOk).1 ∧
      Again (o.registerConnectIo env fd ms timerOk).2
        (o'.registerConnectIo env fd ms timerOk).2 := by
  have hreg := h.ioRegister env ⟨fd, none, some .onConnectReady⟩
  unfold Object.registerConnectIo
  dsimp only
  generalize o.ioRegister env ⟨fd, none, some .onConnectReady⟩ = p at hreg ⊢
  generalize o'.ioRegister env ⟨fd, none, some .onConnectReady⟩ = p' at hreg ⊢
  generalize (if ms = 0 then connectTimeoutDefault else ms) = t
  have hcond : (p'.conn.ioHandle = none) = (p.conn.ioHandle = none) := by rw [hreg.conn.ioHandle]
  simp only [hcond]
  split
  · exact ⟨rfl, hreg.emit _⟩
  have hset := hreg.conn.settled .opening fd
  split
  · split
    · exact ⟨rfl, hset, rfl, hreg.recvBuf⟩
    · have hclose := hset.closeIo
      refine ⟨rfl, ?_, rfl, hreg.recvBuf⟩
      exact hclose.fields hclose.fd hclose.ioHandle rfl hclose.destroyed hclose.pending hclose.log
        rfl rfl rfl rfl
  · exact ⟨rfl, hset, hreg.timer, hreg.recvBuf⟩

theorem Again.openConn (h : Again o o') (env : Env) (host : Option Bytes) (port : Nat)
    (init : Option Init) {recvOk : Bool} (res : SocketRes) (timerOk : Bool)
    (hg : Granted o (.openConn host port init recvOk res timerOk)) :
    (o'.openConn env host port init recvOk res timerOk).1 =
        (o.openConn env host port init recvOk res timerOk).1 ∧
      Again (o.openConn env host port init recvOk res timerOk).2
        (o'.openConn env host port init recvOk res timerOk).2 := by
  unfold Object.openConn
  split
  · rename_i host init
    rw [h.conn.state]
    split
    · exact ⟨rfl, h⟩
    obtain ⟨hok, hs⟩ := h.setupRecv init.recvBufSize hg
    simp only [hok]
    split
    · exact ⟨rfl, hs⟩
    generalize (o.setupRecv init.recvBufSize recvOk).2 = p at hs ⊢
    generalize (o'.setupRecv init.recvBufSize recvOk).2 = p' at hs ⊢
    split
    · exact ⟨rfl, hs.emit _⟩
    · exact ⟨rfl, (hs.emit _).emit _⟩
    · rename_i fd
      obtain ⟨hrc, hr⟩ := ((hs.emit (.socket host port (.started fd))).emit
        (.callbacks init.toCallbacks)).registerConnectIo env fd init.connectTimeoutMs timerOk
      simp only [hrc]
      exact ⟨trivial, hr⟩
  · exact ⟨rfl, h⟩

-- The end of sevent_tcp_conn_accept, once the descriptor has been registered or not.
theorem Again.acceptEnd (h : Again o o') (fd : Nat) :
    (if o'.conn.ioHandle = none then
        (Err.nomem, { o' with conn := { o'.conn with fd := -1, state := .idle } })
      else (0, o'.emit (.accept fd))).1 =
      (if o.conn.ioHandle = none then
        (Err.nomem, { o with conn := { o.conn with fd := -1, state := .idle } })
      else (0, o.emit (.accept fd))).1 ∧
    Again
      (if o.conn.ioHandle = none then
        (Err.nomem, { o with conn := { o.conn with fd := -1, state := .idle } })
      else (0, o.emit (.accept fd))).2
      (if o'.conn.ioHandle = none then
        (Err.nomem, { o' with conn := { o'.conn with fd := -1, state := .idle } })
      else (0, o'.emit (.accept fd))).2 := by
  rw [h.conn.ioHandle]
  split
  · exact ⟨rfl, h.conn.settled .idle (-1), h.timer, h.recvBuf⟩
  · exact ⟨rfl, h.emit _⟩

theorem Again.accept (h : Again o o') (env : Env) (fd : Int) (fcntlOk : Bool)
    (init : Option Init) {recvOk : Bool} (hg : Granted o (.accept fd fcntlOk init recvOk)) :
    (o'.accept env fd fcntlOk init recvOk).1 = (o.accept env fd fcntlOk init recvOk).1 ∧
      Again (o.accept env fd fcntlOk init recvOk).2 (o'.accept env fd fcntlOk init recvOk).2 := by
  unfold Object.accept
  split
  · rename_i init
    rw [h.conn.state]
    split
    · exact ⟨rfl, h⟩
    split
    · exact ⟨rfl, h⟩
    obtain ⟨hok, hs⟩ := h.setupRecv init.recvBufSize hg
    simp only [hok]
    split
    · exact ⟨rfl, hs⟩
    generalize (o.setupRecv init.recvBufSize recvOk).2 = p at hs ⊢
    generalize (o'.setupRecv init.recvBufSize recvOk).2 = p' at hs ⊢
    have hcalls := hs.emit (.callbacks init.toCallbacks)
    have hset : Again
        { p.emit (.callbacks init.toCallbacks) with
          conn := { (p.emit (.callbacks init.toCallbacks)).conn with state := .opening, fd := fd } }
        { p'.emit (.callbacks init.toCallbacks) with
          conn := { (p'.emit (.callbacks init.toCallbacks)).conn with state := .opening, fd := fd } } :=
      ⟨hcalls.conn.settled .opening fd, hcalls.timer, hcalls.recvBuf⟩
    exact (hset.ioRegister env ⟨fd, some .onFirstReady, some .onFirstReady⟩).acceptEnd fd.toNat
  · exact ⟨rfl, h⟩

theorem Again.opened (h : Again o o') (env : Env) :
    Again (Object.opened env o) (Object.opened env o') := by
  have hconn : Again (o.onConn fun c => Conn.updateIo env { c with state := .opened })
      (o'.onConn fun c => Conn.updateIo env { c with state := .opened }) := by
    refine h.onConn (Conn.Alike.updateIo ?_ env)
    exact h.conn.fields h.conn.fd h.conn.ioHandle rfl h.conn.destroyed h.conn.pending h.conn.log
      rfl rfl rfl rfl
  unfold Object.opened
  dsimp only
  rw [hconn.conn.state]
  split
  · exact hconn
  · exact hconn.emit _

theorem Again.onConnectReady (h : Again o o') (env : Env) (soOk : Bool) :
    Again (Object.onConnectReady env soOk o) (Object.onConnectReady env soOk o') := by
  have htimer : Again { o with connectTimer := false } { o' with connectTimer := false } :=
    ⟨h.conn, rfl, h.recvBuf⟩
  unfold Object.onConnectReady
  rw [h.conn.destroyed, h.conn.state]
  split
  · exact h
  dsimp only
  split
  · exact htimer.onConn (h.conn.teardown _)
  · exact htimer.opened env

theorem Again.onConnectTimeout (h : Again o o') :
    Again (Object.onConnectTimeout o) (Object.onConnectTimeout o') := by
  have htimer : Again { o with connectTimer := false } { o' with connectTimer := false } :=
    ⟨h.conn, rfl, h.recvBuf⟩
  unfold Object.onConnectTimeout
  rw [h.conn.destroyed, h.conn.state]
  split
  · exact h
  · exact htimer.onConn (h.conn.teardown _)

theorem Again.onFirstReady (h : Again o o') (env : Env) :
    Again (Object.onFirstReady env o) (Object.onFirstReady env o') := by
  unfold Object.onFirstReady
  rw [h.conn.destroyed, h.conn.state]
  split
  · exact h
  · exact h.opened env

theorem Again.step (h : Again o o') (env : Env) {i : ObjectInput} (hg : Granted o i) :
    Again (o.step env i) (o'.step env i) := by
  unfold Object.step
  rw [h.conn.destroyed]
  split
  · exact h
  cases i with
  | openConn host port init recvOk res timerOk =>
      obtain ⟨hrc, hr⟩ := h.openConn env host port init res timerOk hg
      exact Again.returned hrc hr
  | accept fd fcntlOk init recvOk =>
      obtain ⟨hrc, hr⟩ := h.accept env fd fcntlOk init hg
      exact Again.returned hrc hr
  | connectReady soOk =>
      dsimp only
      rw [h.conn.ioHandle]
      split
      · exact h.onConnectReady env soOk
      · exact h
  | connectTimeout =>
      dsimp only
      rw [h.timer]
      split
      · exact h.onConnectTimeout
      · exact h
  | firstReady =>
      dsimp only
      rw [h.conn.ioHandle]
      split
      · exact h.onFirstReady env
      · exact h
  | readable n =>
      dsimp only
      rw [h.conn.ioHandle]
      split
      · exact (h.emit .read).onConn ((h.conn.emit .read).onReadable n)
      · exact h
  | writeReady =>
      refine h.onConn ?_
      simp only [Conn.step]
      rw [h.conn.ioHandle]
      split
      · exact h.conn.onWriteReady env
      · exact h.conn
  | write data =>
      refine h.onConn ?_
      obtain ⟨hrc, hw⟩ := h.conn.write env data
      simp only [Conn.step, hrc]
      exact hw.emit _
  | shutdown wr rd =>
      obtain ⟨hrc, hs⟩ := h.conn.shutdown wr rd
      have hnext : Again { o with conn := (o.conn.shutdown wr rd).2 }
          { o' with conn := (o'.conn.shutdown wr rd).2 } := ⟨hs, h.timer, h.recvBuf⟩
      show Again (Object.returned (_, { o with conn := (o.conn.shutdown wr rd).2 }))
        (Object.returned (_, { o' with conn := (o'.conn.shutdown wr rd).2 }))
      exact Again.returned hrc hnext
  | setCallbacks cb => exact h.emit _
  | setNoDelay on =>
      simp only [Object.setNoDelay]
      rw [h.conn.fd]
      split
      · exact h
      · exact h.emit _
  | close => exact h.onConn h.conn.close
  | destroy => exact h.onConn h.conn.destroy

theorem Again.run (h : Again o o') (env : Env) {inputs : List ObjectInput}
    (hg : GrantedAll env o inputs) : Again (o.run env inputs) (o'.run env inputs) := by
  unfold Object.run
  induction inputs generalizing o o' with
  | nil => exact h
  | cons i rest ih => exact ih (h.step env hg.1) hg.2

-- ---- as good as new ----

end Object

-- The sends, shutdowns, return codes and callbacks.
def Event.Seen : Event → Bool
  | .send .. | .shutdown .. | .wrote .. | .returned _ | .callbacks _ | .onOpen | .onData _ | .onClose
  | .onError _ => true
  | _ => false

namespace Object

-- `o` from here on.
def afresh (o : Object) : Object := { o with conn := { o.conn with log := [] } }

def AsNew (o : Object) : Prop :=
  ∀ env inputs, GrantedAll env o.afresh inputs →
    (o.afresh.run env inputs).conn.log.filter Event.Seen =
      (create.run env inputs).conn.log.filter Event.Seen

-- An idle object, but for the flag of a shutdown that has not been carried out.
def leftover (pending : Bool) : Object :=
  { create with conn := { create.conn with shutdownWrPending := pending } }

theorem Sane.leftover {o : Object} (h : o.Sane) (hc : o.conn.Clear) (hidle : o.conn.state = .idle)
    (hlive : o.conn.destroyed = false) : Again o.afresh (leftover o.conn.shutdownWrPending) := by
  have hqueue : o.conn.queue = .empty := hc (by rw [hidle]; nofun)
  refine ⟨⟨(h.owner.idle.mp hidle).symm, ?_, hidle.symm, hlive.symm, rfl, rfl, [], [],
    Conn.queued_empty hqueue, Conn.queued_empty rfl, rfl⟩, ?_, .inr rfl⟩
  · cases hio : o.conn.ioHandle with
    | none => rw [afresh, hio]; rfl
    | some io => exact absurd hidle (h.owner.handle (by rw [hio]; nofun))
  · cases htimer : o.connectTimer with
    | false => rw [afresh, htimer]; rfl
    | true => exact absurd hidle (h.timer htimer)

-- The kernel takes nothing at first.
def reluctant : Env := ⟨fun _ => true, fun _ => true, fun log data =>
  if log.any (fun e => e = .send data .again) then .wrote data.length else .again⟩

-- A write that is flushed sends a FIN after it.
def probe : List ObjectInput :=
  [.accept 5 true (some plainInit) true, .firstReady, .write (.bytes [1])]

theorem leftover_probe :
    ((leftover true).run permissive probe).conn.log.filter Event.Seen ≠
      (create.run permissive probe).conn.log.filter Event.Seen := by
  decide

theorem granted_probe (o : Object) : GrantedAll permissive o probe :=
  ⟨fun _ => rfl, trivial, trivial, trivial⟩

-- Nothing but the flag of a pending SHUT_WR outlives a connection.
theorem reopened_as_new (env : Env) (history : List ObjectInput)
    (hidle : (create.run env history).conn.state = .idle)
    (hlive : (create.run env history).conn.destroyed = false) :
    AsNew (create.run env history) ↔ (create.run env history).conn.shutdownWrPending = false := by
  obtain ⟨hsane, hclear⟩ := run_sane_clear env history create_sane fun _ => rfl
  have hagain := hsane.leftover hclear hidle hlive
  constructor
  · intro hnew
    cases hpending : (create.run env history).conn.shutdownWrPending with
    | false => rfl
    | true =>
        rw [hpending] at hagain
        have hsame := (hagain.run permissive (granted_probe _)).conn.log
        refine absurd ?_ leftover_probe
        rw [hsame]
        exact hnew permissive probe (granted_probe _)
  · intro hpending env inputs hg
    rw [hpending] at hagain
    rw [← (hagain.run env hg).conn.log]
    rfl

-- One connection that is closed with nothing left to do.
theorem reopened_as_new_closed :
    AsNew (create.run permissive [.accept 5 true (some plainInit) true, .firstReady, .close]) :=
  (reopened_as_new permissive [.accept 5 true (some plainInit) true, .firstReady, .close]
    (by decide) (by decide)).mpr (by decide)

-- A SHUT_WR that waits for the queue, and a close before it is empty.
def heldBack : Object :=
  create.run reluctant [.accept 5 true (some plainInit) true, .firstReady, .write (.bytes [1]),
    .shutdown true false, .close]

theorem closed_with_pending_shutdown :
    heldBack.conn.state = .idle ∧ heldBack.conn.destroyed = false ∧ ¬ AsNew heldBack := by
  refine ⟨by decide, by decide, fun hnew => ?_⟩
  have h := hnew permissive probe (granted_probe _)
  revert h
  decide

end Object

end Sevent.Tcp
