import Sevent.Trace
import Sevent.Tcp.Object

-- Who owns a socket: every descriptor that an object has taken is closed once, and nothing is
-- done to it afterwards.
namespace Sevent.Tcp

open Sevent.Trace

-- The descriptor that the object owns from this event on.
def Event.takes : Event → Option Nat
  | .socket _ _ (.failed fd) | .socket _ _ (.started fd) | .accept fd => some fd
  | _ => none

-- A system call on the descriptor.
def Event.uses : Event → Bool
  | .closeFd | .read | .send .. | .shutdown .. | .setNoDelay _ => true
  | _ => false

def Event.isClose : Event → Bool
  | .closeFd => true
  | _ => false

def holds (fd : Option Nat) (e : Event) : Option Nat :=
  if e.isClose then none else e.takes.or fd

-- The descriptor that has been taken and not closed.
def held (log : List Event) : Option Nat := log.foldl holds none

-- One descriptor at a time, and no call without one.
def Owning (past : List Event) (e : Event) : Prop :=
  (e.takes ≠ none → held past = none) ∧ (e.uses = true → held past ≠ none)

theorem held_concat (log : List Event) (e : Event) : held (log ++ [e]) = holds (held log) e := by
  simp [held]

-- ---- the log ----

theorem held_other {log : List Event} {e : Event} (ht : e.takes = none) (hc : e.isClose = false) :
    held (log ++ [e]) = held log := by
  rw [held_concat, holds, hc, ht]
  rfl

theorem held_taken {log : List Event} {e : Event} {fd : Nat} (ht : e.takes = some fd)
    (hc : e.isClose = false) : held (log ++ [e]) = some fd := by
  rw [held_concat, holds, hc, ht]
  rfl

namespace Conn

-- ---- the invariant ----

-- The field `fd` is the descriptor that is held; in IDLE there is none, nor an IO handle.
structure Owner (c : Conn) : Prop where
  owning : AtEach Owning c.log
  held : held c.log = if c.fd < 0 then none else some c.fd.toNat
  fd : c.fd = -1 ∨ 0 ≤ c.fd
  idle : c.state = .idle ↔ c.fd = -1
  handle : c.ioHandle ≠ none → c.state ≠ .idle

theorem Owner.emit {c : Conn} (h : Owner c) {e : Event} (ht : e.takes = none)
    (hc : e.isClose = false) (hu : e.uses = true → c.state ≠ .idle) : Owner (c.emit e) where
  owning := by
    refine (atEach_concat _ _ _).mpr ⟨h.owning, fun hne => absurd ht hne, fun hused => ?_⟩
    have hfd : ¬ c.fd < 0 := by
      rcases h.fd with hfd | hfd
      · exact absurd (h.idle.mpr hfd) (hu hused)
      · omega
    rw [h.held, if_neg hfd]
    nofun
  held := by
    rw [Conn.emit, held_other ht hc]
    exact h.held
  fd := h.fd
  idle := h.idle
  handle := h.handle

theorem Owner.congr {c d : Conn} (h : Owner c) (hlog : d.log = c.log) (hfd : d.fd = c.fd)
    (hstate : d.state = c.state) (hio : d.ioHandle = c.ioHandle) : Owner d :=
  ⟨hlog ▸ h.owning, by rw [hlog, hfd, h.held], hfd ▸ h.fd, by rw [hstate, hfd, h.idle],
    by rw [hio, hstate]; exact h.handle⟩

-- The way back to IDLE.
theorem Owner.idled {c : Conn} (h : Owner c) (q : Chain.Queue WriteNode) :
    Owner { c.closeIo with state := .idle, queue := q } := by
  let c₁ := if c.ioHandle.isSome then { c.emit .ioUnregister with ioHandle := none } else c
  have hc₁ : Owner c₁ ∧ c₁.ioHandle = none := by
    by_cases hsome : c.ioHandle.isSome = true
    · have hemit := h.emit (e := .ioUnregister) rfl rfl nofun
      rw [show c₁ = { c.emit .ioUnregister with ioHandle := none } from if_pos hsome]
      exact ⟨⟨hemit.owning, hemit.held, hemit.fd, hemit.idle, fun hne => absurd rfl hne⟩, rfl⟩
    · rw [show c₁ = c from if_neg hsome]
      exact ⟨h, by simpa using hsome⟩
  have hclose : c.closeIo = if 0 ≤ c₁.fd then { c₁.emit .closeFd with fd := -1 } else c₁ := rfl
  obtain ⟨hown, hnone⟩ := hc₁
  rw [hclose]
  by_cases hpos : 0 ≤ c₁.fd
  · rw [if_pos hpos]
    have hheld : Tcp.held c₁.log ≠ none := by
      rw [hown.held, if_neg (by omega)]
      nofun
    refine ⟨?_, held_concat _ _, .inl rfl, by simp, fun hne => absurd hnone hne⟩
    exact (atEach_concat _ _ _).mpr ⟨hown.owning, fun hne => absurd rfl hne, fun _ => hheld⟩
  · rw [if_neg hpos]
    have hminus : c₁.fd = -1 := hown.fd.resolve_right hpos
    exact ⟨hown.owning, hown.held, hown.fd, by simp [hminus], fun hne => absurd hnone hne⟩

theorem Owner.teardown {c : Conn} (h : Owner c) (err : Int) : Owner (teardown err c) := by
  unfold Conn.teardown
  split
  · exact h
  · have hidle : Owner { c.closeIo.queueClear with state := .idle } :=
      h.idled .empty
    dsimp only
    split
    · exact hidle.emit rfl rfl nofun
    · exact hidle.emit rfl rfl nofun

theorem Owner.close {c : Conn} (h : Owner c) : Owner c.close := h.idled .empty

theorem Owner.destroy {c : Conn} (h : Owner c) : Owner c.destroy :=
  (h.congr (d := { c with destroyed := true }) rfl rfl rfl rfl).close

-- A handle is registered, or not, while the connection is not idle.
theorem Owner.registered {c : Conn} (h : Owner c) (hs : c.state ≠ .idle) (handle : IoHandle)
    (ok : Bool) (io : Option IoHandle) :
    Owner { c.emit (.ioRegister handle ok) with ioHandle := io } :=
  have hemit := h.emit (e := .ioRegister handle ok) rfl rfl nofun
  ⟨hemit.owning, hemit.held, hemit.fd, hemit.idle, fun _ => hs⟩

theorem Owner.updateIo {c : Conn} (h : Owner c) (hs : c.state ≠ .idle) (env : Env) :
    Owner (updateIo env c) := by
  have hc₁ : ∀ c₁, c₁ = (if c.ioHandle.isSome then c.emit .ioUnregister else c) →
      Owner c₁ ∧ c₁.state ≠ .idle := by
    rintro c₁ rfl
    split
    · exact ⟨h.emit rfl rfl nofun, hs⟩
    · exact ⟨h, hs⟩
  unfold Conn.updateIo
  dsimp only
  generalize hgen : (if c.ioHandle.isSome then c.emit .ioUnregister else c) = c₁
  obtain ⟨hown, hstate⟩ := hc₁ c₁ hgen.symm
  split
  · exact hown.registered hstate _ _ _
  · exact (hown.registered hstate _ _ _).teardown _

-- What sends on the descriptor, and nothing else.
structure Sends (c c' : Conn) : Prop where
  fd : c'.fd = c.fd
  ioHandle : c'.ioHandle = c.ioHandle
  state : c'.state = c.state
  owner : c.state ≠ .idle → Owner c → Owner c'

theorem Sends.refl (c : Conn) : Sends c c := ⟨rfl, rfl, rfl, fun _ h => h⟩

theorem Sends.trans {a b c : Conn} (h : Sends a b) (h' : Sends b c) : Sends a c :=
  ⟨h'.fd.trans h.fd, h'.ioHandle.trans h.ioHandle, h'.state.trans h.state,
    fun hs ho => h'.owner (h.state.symm ▸ hs) (h.owner hs ho)⟩

theorem Sends.queue (c : Conn) (q : Chain.Queue WriteNode) : Sends c { c with queue := q } :=
  ⟨rfl, rfl, rfl, fun _ h => h.congr rfl rfl rfl rfl⟩

theorem Sends.emit (c : Conn) {e : Event} (ht : e.takes = none) (hc : e.isClose = false) :
    Sends c (c.emit e) :=
  ⟨rfl, rfl, rfl, fun hs h => h.emit ht hc fun _ => hs⟩

theorem flushLoop_sends (env : Env) (fuel : Nat) (c : Conn) :
    Sends c (flushLoop env fuel c).2 := by
  induction fuel generalizing c with
  | zero => exact .refl c
  | succ fuel ih =>
      unfold flushLoop
      split
      · exact .refl c
      · rename_i a n _
        have hsend : Sends c (c.emit (.send (n.data.drop n.offset)
          (env.send c.log (n.data.drop n.offset)))) := .emit c rfl rfl
        dsimp only
        split
        · split
          · exact hsend.trans (.queue _ _)
          · exact (hsend.trans (.queue _ _)).trans (ih _)
        · exact (hsend.trans (.queue _ _)).trans (ih _)
        · exact hsend
        · exact hsend.trans (.queue _ _)

theorem flush_sends (env : Env) (c : Conn) : Sends c (c.flush env).2 := flushLoop_sends env _ c

theorem maybeShutdownWr_sends (c : Conn) : Sends c c.maybeShutdownWr := by
  unfold maybeShutdownWr
  split
  · have hemit : Sends c (c.emit (.shutdown true false)) := .emit c rfl rfl
    exact ⟨rfl, rfl, rfl, fun hs h => (hemit.owner hs h).congr rfl rfl rfl rfl⟩
  · exact .refl c

theorem Owner.onWriteReady {c : Conn} (h : Owner c) (env : Env) : Owner (onWriteReady env c) := by
  unfold Conn.onWriteReady
  split
  · exact h
  · rename_i hopen
    have hs : c.state ≠ .idle := fun hidle => hopen (.inr (by simp [hidle]))
    have hflush := flush_sends env c
    have hown := hflush.owner hs h
    have hstate : (c.flush env).2.state ≠ .idle := hflush.state.symm ▸ hs
    dsimp only
    split
    · exact hown.teardown _
    split
    · have hshut := maybeShutdownWr_sends (c.flush env).2
      exact (hshut.owner hstate hown).updateIo (hshut.state.symm ▸ hstate) env
    · exact hown

theorem Owner.onReadable {c : Conn} (h : Owner c) (n : ReadRes) : Owner (onReadable n c) := by
  unfold Conn.onReadable
  split
  · exact h
  · split
    · exact h.teardown _
    · exact h.emit rfl rfl nofun
    · exact h
    · exact h.teardown _

theorem enqueue_sends (env : Env) (data : Bytes) (c : Conn) : Sends c (c.enqueue env data).2 := by
  have halloc : Sends c (c.alloc env).2 := .emit c rfl rfl
  unfold enqueue
  dsimp only
  split
  · exact halloc
  · exact ⟨rfl, rfl, rfl, fun hs h => (halloc.owner hs h).congr rfl rfl rfl rfl⟩

theorem Owner.write {c : Conn} (h : Owner c) (env : Env) (data : Arg) :
    Owner (write env data c).2 := by
  unfold Conn.write
  split
  · exact h
  split
  · exact h
  rename_i hopen
  have hs : c.state ≠ .idle := fun hidle => hopen (.inr (by simp [hidle]))
  split
  · exact h
  have halloc : Sends c (c.alloc env).2 := .emit c rfl rfl
  dsimp only
  split
  · exact halloc.owner hs h
  have henq := halloc.trans (enqueue_sends env data.toBytes (c.alloc env).2)
  split
  · exact henq.owner hs h
  have hflush := henq.trans (flush_sends env _)
  have hown := hflush.owner hs h
  have hstate := hflush.state.symm ▸ hs
  split
  · exact hown.teardown _
  split
  · exact hown.updateIo hstate env
  · exact (maybeShutdownWr_sends _).owner hstate hown

theorem Owner.shutdown {c : Conn} (h : Owner c) (wr rd : Bool) : Owner (shutdown wr rd c).2 := by
  unfold Conn.shutdown
  split
  · exact h
  · rename_i hopen
    have hs : c.state ≠ .idle := fun hidle => hopen (.inr (by simp [hidle]))
    have hwr : ∀ c₁, c₁ = (if wr then
          if c.queue.head.isSome then { c with shutdownWrPending := true }
          else c.emit (.shutdown true false)
        else c) → Owner c₁ ∧ c₁.state ≠ .idle := by
      rintro c₁ rfl
      split
      · split
        · exact ⟨h.congr rfl rfl rfl rfl, hs⟩
        · exact ⟨h.emit rfl rfl fun _ => hs, hs⟩
      · exact ⟨h, hs⟩
    dsimp only
    generalize hgen : (if wr then
        if c.queue.head.isSome then { c with shutdownWrPending := true }
        else c.emit (.shutdown true false)
      else c) = c₁
    obtain ⟨hown, hstate⟩ := hwr c₁ hgen.symm
    split
    · exact hown.emit rfl rfl fun _ => hstate
    · exact hown

end Conn

namespace Conn

-- ---- the field `fd` ----

def SameFd (c c' : Conn) : Prop := c'.fd = c.fd ∨ c'.fd = -1

theorem SameFd.trans {a b c : Conn} (h : SameFd a b) (h' : SameFd b c) : SameFd a c := by
  rcases h' with h' | h'
  · exact h.imp h'.trans h'.trans
  · exact .inr h'

theorem closeIo_fd (c : Conn) : SameFd c c.closeIo := by
  have hc₁ : ∀ c₁ : Conn, c₁.fd = c.fd →
      SameFd c (if 0 ≤ c₁.fd then { c₁.emit .closeFd with fd := -1 } else c₁) := by
    intro c₁ hfd
    split
    · exact .inr rfl
    · exact .inl hfd
  exact hc₁ _ (by split <;> rfl)

theorem teardown_fd (err : Int) (c : Conn) : SameFd c (teardown err c) := by
  unfold teardown
  split
  · exact .inl rfl
  · have hclose : SameFd c { c.closeIo.queueClear with state := .idle } := closeIo_fd c
    dsimp only
    split <;> exact hclose

theorem updateIo_fd (env : Env) (c : Conn) : SameFd c (updateIo env c) := by
  unfold updateIo
  dsimp only
  have hfd : (if c.ioHandle.isSome then c.emit .ioUnregister else c).fd = c.fd := by split <;> rfl
  generalize (if c.ioHandle.isSome then c.emit .ioUnregister else c) = c₁ at hfd ⊢
  split
  · exact .inl hfd
  · exact SameFd.trans (.inl hfd) (teardown_fd _ _)

theorem onWriteReady_fd (env : Env) (c : Conn) : SameFd c (onWriteReady env c) := by
  have hflush : SameFd c (c.flush env).2 := .inl (flush_sends env c).fd
  unfold onWriteReady
  split
  · exact .inl rfl
  dsimp only
  split
  · exact hflush.trans (teardown_fd _ _)
  split
  · exact (hflush.trans (.inl (maybeShutdownWr_sends _).fd)).trans (updateIo_fd _ _)
  · exact hflush

theorem onReadable_fd (n : ReadRes) (c : Conn) : SameFd c (onReadable n c) := by
  unfold onReadable
  split
  · exact .inl rfl
  · split
    · exact teardown_fd _ _
    · exact .inl rfl
    · exact .inl rfl
    · exact teardown_fd _ _

theorem write_fd (env : Env) (data : Arg) (c : Conn) : SameFd c (write env data c).2 := by
  have halloc : SameFd c (c.alloc env).2 := .inl rfl
  have henq := halloc.trans (.inl (enqueue_sends env data.toBytes (c.alloc env).2).fd)
  have hflush := henq.trans (.inl (flush_sends env _).fd)
  unfold write
  split
  · exact .inl rfl
  split
  · exact .inl rfl
  split
  · exact .inl rfl
  dsimp only
  split
  · exact halloc
  split
  · exact henq
  split
  · exact hflush.trans (teardown_fd _ _)
  split
  · exact hflush.trans (updateIo_fd _ _)
  · exact hflush.trans (.inl (maybeShutdownWr_sends _).fd)

theorem shutdown_fd (wr rd : Bool) (c : Conn) : (c.shutdown wr rd).2.fd = c.fd := by
  unfold shutdown
  split
  · rfl
  · cases wr <;> cases rd <;> cases c.queue.head <;> rfl

end Conn

theorem Conn.shutdown_state (wr rd : Bool) (c : Conn) : (c.shutdown wr rd).2.state = c.state := by
  unfold Conn.shutdown
  split
  · rfl
  · cases wr <;> cases rd <;> cases c.queue.head <;> rfl

namespace Object

-- The connect timer, too, belongs to a connection that is being made or is there.
structure Sane (o : Object) : Prop where
  owner : o.conn.Owner
  timer : o.connectTimer = true → o.conn.state ≠ .idle

theorem create_sane : create.Sane where
  owner := ⟨atEach_nil _, rfl, .inl rfl, ⟨fun _ => rfl, fun _ => rfl⟩, nofun⟩
  timer := nofun

theorem Sane.emit {o : Object} (h : o.Sane) {e : Event} (ht : e.takes = none)
    (hc : e.isClose = false) (hu : e.uses = true → o.conn.state ≠ .idle) : (o.emit e).Sane :=
  ⟨h.owner.emit ht hc hu, h.timer⟩

theorem Sane.onConn {o : Object} {f : Conn → Conn} (h : (f o.conn).Owner) : (o.onConn f).Sane :=
  ⟨h, fun ht => of_decide_eq_true (Bool.and_eq_true_iff.mp ht).2⟩

theorem Sane.returned {r : Int × Object} (h : r.2.Sane) : (returned r).Sane :=
  h.emit rfl rfl nofun

theorem setupRecv_conn (size : Nat) (ok : Bool) (o : Object) :
    (o.setupRecv size ok).2.conn = o.conn ∧ (o.setupRecv size ok).2.connectTimer = o.connectTimer := by
  unfold setupRecv
  split <;> exact ⟨rfl, rfl⟩

theorem Sane.setupRecv {o : Object} (h : o.Sane) (size : Nat) (ok : Bool) :
    (o.setupRecv size ok).2.Sane := by
  obtain ⟨hconn, htimer⟩ := setupRecv_conn size ok o
  exact ⟨hconn ▸ h.owner, by rw [hconn, htimer]; exact h.timer⟩

-- In IDLE, with a descriptor that is not yet in the field `fd`.
structure Taken (fd : Nat) (c : Conn) : Prop where
  owning : AtEach Owning c.log
  held : held c.log = some fd
  fd : c.fd = -1
  state : c.state = .idle
  ioHandle : c.ioHandle = none

theorem Taken.emit {fd : Nat} {c : Conn} (h : Taken fd c) {e : Event} (ht : e.takes = none)
    (hc : e.isClose = false) : Taken fd (c.emit e) := by
  refine ⟨(atEach_concat _ _ _).mpr ⟨h.owning, fun hne => absurd ht hne, fun _ => ?_⟩, ?_, h.fd,
    h.state, h.ioHandle⟩
  · rw [h.held]
    nofun
  · exact (held_other ht hc).trans h.held

-- `close(fd)` by whoever has just made the descriptor.
theorem Taken.closed {fd : Nat} {c d : Conn} (h : Taken fd c) (hlog : d.log = c.log)
    (hfd : d.fd = c.fd) (hstate : d.state = c.state) (hio : d.ioHandle = none) :
    (d.emit .closeFd).Owner := by
  have hminus : d.fd = -1 := hfd.trans h.fd
  refine ⟨(atEach_concat _ _ _).mpr ⟨hlog ▸ h.owning, fun hne => absurd rfl hne, fun _ => ?_⟩, ?_,
    .inl hminus, ⟨fun _ => hminus, fun _ => hstate.trans h.state⟩, fun hne => absurd hio hne⟩
  · rw [hlog, h.held]
    nofun
  · have hneg : (d.emit .closeFd).fd < 0 := by
      rw [show (d.emit .closeFd).fd = -1 from hminus]
      decide
    rw [if_pos hneg]
    exact held_concat _ _

-- The descriptor in its field: OPENING, with the IO handle.
theorem Taken.opening {fd : Nat} {c d : Conn} (h : Taken fd c) (hlog : d.log = c.log)
    (hfd : d.fd = fd) (hstate : d.state = .opening) : d.Owner := by
  refine ⟨hlog ▸ h.owning, ?_, .inr (by omega), by simp [hstate, hfd], fun _ => by simp [hstate]⟩
  rw [hlog, h.held, if_neg (by omega), hfd, Int.toNat_natCast]

theorem registerConnectIo_sane (env : Env) {fd : Nat} (ms : Int) (timerOk : Bool) {o : Object}
    (h : Taken fd o.conn) (ht : o.connectTimer = false) :
    (o.registerConnectIo env fd ms timerOk).2.Sane := by
  have hreg := h.emit (e := .ioRegister ⟨fd, none, some .onConnectReady⟩
    (env.ioRegister o.conn.log)) rfl rfl
  unfold registerConnectIo ioRegister
  dsimp only
  generalize (if env.ioRegister o.conn.log = true then
    some (IoHandle.mk fd none (some .onConnectReady)) else none) = io
  generalize (if ms = 0 then connectTimeoutDefault else ms) = t
  split
  · rename_i hnone
    exact ⟨hreg.closed rfl rfl rfl hnone, fun htrue => absurd (ht.symm.trans htrue) nofun⟩
  · have hopening : Conn.Owner { o.conn.emit (.ioRegister ⟨fd, none, some .onConnectReady⟩
        (env.ioRegister o.conn.log)) with ioHandle := io, fd := fd, state := .opening } :=
      hreg.opening rfl rfl rfl
    split
    · split
      · exact ⟨hopening, fun _ => nofun⟩
      · exact ⟨hopening.idled _, nofun⟩
    · exact ⟨hopening, fun _ => nofun⟩

theorem openConn_sane (env : Env) (host : Option Bytes) (port : Nat) (init : Option Init)
    (recvOk : Bool) (res : SocketRes) (timerOk : Bool) {o : Object} (h : o.Sane) :
    (o.openConn env host port init recvOk res timerOk).2.Sane := by
  unfold openConn
  split
  · rename_i host init
    split
    · exact h
    rename_i hcheck
    have hidle : o.conn.state = .idle := by
      simp only [Bool.or_eq_true, decide_eq_true_eq, not_or, not_not] at hcheck
      exact hcheck.2
    have hs := h.setupRecv init.recvBufSize recvOk
    obtain ⟨hconn, htimer⟩ := setupRecv_conn init.recvBufSize recvOk o
    dsimp only
    split
    · exact hs
    generalize (o.setupRecv init.recvBufSize recvOk).2 = o₁ at hs hconn htimer ⊢
    have hstate : o₁.conn.state = .idle := by rw [hconn, hidle]
    have hfd : o₁.conn.fd = -1 := hs.owner.idle.mp hstate
    have hheld : held o₁.conn.log = none := by rw [hs.owner.held, hfd]; rfl
    have hio : o₁.conn.ioHandle = none := by
      by_contra hne
      exact hs.owner.handle hne hstate
    have hnotimer : o₁.connectTimer = false := by
      by_contra hne
      exact hs.timer (by simpa using hne) hstate
    -- the descriptor is there as soon as socket has returned it
    have htaken : ∀ fd e, e.takes = some fd → e.isClose = false → e.uses = false →
        Taken fd (o₁.emit e).conn := by
      intro fd e he hc hu
      refine ⟨(atEach_concat _ _ _).mpr ⟨hs.owner.owning, fun _ => hheld, ?_⟩, ?_, hfd, hstate, hio⟩
      · rw [hu]
        nofun
      · exact held_taken he hc
    split
    · exact hs.emit rfl rfl nofun
    · rename_i fd
      have hclosed := (htaken fd (.socket host port (.failed fd)) rfl rfl rfl).closed rfl rfl rfl hio
      exact ⟨hclosed, hs.timer⟩
    · rename_i fd
      have hcb := (htaken fd (.socket host port (.started fd)) rfl rfl rfl).emit
        (e := .callbacks init.toCallbacks) rfl rfl
      exact registerConnectIo_sane env _ _ hcb hnotimer
  · exact h

theorem accept_sane (env : Env) (fd : Int) (fcntlOk : Bool) (init : Option Init) (recvOk : Bool)
    {o : Object} (h : o.Sane) : (o.accept env fd fcntlOk init recvOk).2.Sane := by
  unfold accept
  split
  · rename_i init
    split
    · exact h
    rename_i hcheck
    obtain ⟨hpos, hidle⟩ : 0 ≤ fd ∧ o.conn.state = .idle := by
      simp only [Bool.or_eq_true, decide_eq_true_eq, not_or, not_not] at hcheck
      exact ⟨Int.not_lt.mp hcheck.1.1.1, hcheck.2⟩
    split
    · exact h
    have hs := h.setupRecv init.recvBufSize recvOk
    obtain ⟨hconn, htimer⟩ := setupRecv_conn init.recvBufSize recvOk o
    dsimp only
    split
    · exact hs
    generalize (o.setupRecv init.recvBufSize recvOk).2 = o₁ at hs hconn htimer ⊢
    have hstate : o₁.conn.state = .idle := by rw [hconn, hidle]
    have hfd : o₁.conn.fd = -1 := hs.owner.idle.mp hstate
    have hcb := hs.emit (e := .callbacks init.toCallbacks) rfl rfl nofun
    have hheld : held (o₁.emit (.callbacks init.toCallbacks)).conn.log = none := by
      rw [hcb.owner.held, if_pos (by rw [show (o₁.emit _).conn.fd = -1 from hfd]; decide)]
    have hreg := (hcb.owner).emit (e := .ioRegister ⟨fd, some .onFirstReady, some .onFirstReady⟩
      (env.ioRegister (o₁.emit (.callbacks init.toCallbacks)).conn.log)) rfl rfl nofun
    by_cases hok : env.ioRegister (o₁.emit (.callbacks init.toCallbacks)).conn.log = true
    · rw [hok] at hreg
      simp only [ioRegister, hok, if_true, reduceCtorEq, if_false]
      refine ⟨⟨?_, ?_, .inr hpos, by simp [emit, Conn.emit]; omega, fun _ => nofun⟩, fun _ => nofun⟩
      · exact (atEach_concat _ _ _).mpr ⟨hreg.owning,
          fun _ => (held_other rfl rfl).trans hheld, nofun⟩
      · have hnot : ¬ fd < 0 := by omega
        exact (held_taken rfl rfl).trans (if_neg hnot).symm
    · rw [Bool.not_eq_true] at hok
      rw [hok] at hreg
      simp only [ioRegister, hok, Bool.false_eq_true, if_false, if_true]
      refine ⟨⟨hreg.owning, ?_, .inl rfl, by simp, fun hne => absurd rfl hne⟩, ?_⟩
      · exact (held_other rfl rfl).trans hheld
      · exact fun htrue => absurd hstate (hs.timer htrue)
  · exact h

theorem opened_sane (env : Env) {o : Object} (h : o.conn.Owner) (hstate : o.conn.state = .opening) :
    (opened env o).Sane := by
  have hne : o.conn.state ≠ .idle := by simp [hstate]
  have hopen : Conn.Owner { o.conn with state := .opened } :=
    ⟨h.owning, h.held, h.fd, ⟨nofun, fun hfd => absurd (h.idle.mpr hfd) hne⟩, fun _ => nofun⟩
  have hio : (o.onConn fun c => Conn.updateIo env { c with state := .opened }).Sane :=
    .onConn (hopen.updateIo nofun env)
  unfold opened
  dsimp only
  split
  · exact hio
  · exact hio.emit rfl rfl nofun

theorem step_sane (env : Env) {o : Object} (h : o.Sane) (i : ObjectInput) : (o.step env i).Sane := by
  unfold step
  split
  · exact h
  cases i with
  | openConn host port init recvOk res timerOk =>
      exact (openConn_sane env host port init recvOk res timerOk h).returned
  | accept fd fcntlOk init recvOk => exact (accept_sane env fd fcntlOk init recvOk h).returned
  | connectReady soOk =>
      dsimp only
      split
      · unfold onConnectReady
        split
        · exact h
        rename_i hopening
        dsimp only
        split
        · exact .onConn (h.owner.teardown _)
        · rw [not_or, not_not] at hopening
          exact opened_sane env (o := { o with connectTimer := false }) h.owner hopening.2
      · exact h
  | connectTimeout =>
      dsimp only
      split
      · unfold onConnectTimeout
        split
        · exact h
        · exact .onConn (h.owner.teardown _)
      · exact h
  | firstReady =>
      dsimp only
      split
      · unfold onFirstReady
        split
        · exact h
        · rename_i hopening
          rw [not_or, not_not] at hopening
          exact opened_sane env h.owner hopening.2
      · exact h
  | readable n =>
      dsimp only
      split
      · rename_i hread
        have hne : o.conn.state ≠ .idle := h.owner.handle fun hnone => by simp [hnone] at hread
        exact .onConn ((h.owner.emit rfl rfl fun _ => hne).onReadable n)
      · exact h
  | writeReady =>
      refine .onConn ?_
      simp only [Conn.step]
      split
      · exact h.owner.onWriteReady env
      · exact h.owner
  | write data => exact .onConn ((h.owner.write env data).emit rfl rfl nofun)
  | shutdown wr rd =>
      have htimer : o.connectTimer = true → (o.conn.shutdown wr rd).2.state ≠ .idle := by
        rw [Conn.shutdown_state]
        exact h.timer
      exact Sane.returned (r := ((o.conn.shutdown wr rd).1, { o with conn := (o.conn.shutdown wr rd).2 }))
        ⟨h.owner.shutdown wr rd, htimer⟩
  | setCallbacks cb => exact h.emit rfl rfl nofun
  | setNoDelay on =>
      simp only [setNoDelay]
      split
      · exact h
      · rename_i hfd
        exact h.emit rfl rfl fun _ hidle => hfd (by rw [h.owner.idle.mp hidle]; decide)
  | close => exact .onConn h.owner.close
  | destroy => exact .onConn h.owner.destroy

-- The descriptor that the kernel, or the caller, hands over.
def descriptor : ObjectInput → Option Nat
  | .openConn _ _ _ _ (.failed fd) _ | .openConn _ _ _ _ (.started fd) _ => some fd
  | .accept fd _ _ _ => if 0 ≤ fd then some fd.toNat else none
  | _ => none

-- The kernel hands out no descriptor that is open, and a caller passes on only its own.
inductive Reached : (Nat → Object) → Prop where
  | start : Reached fun _ => create
  | step {w : Nat → Object} (h : Reached w) (env : Env) (a : Nat) (i : ObjectInput)
      (hnew : ∀ fd, descriptor i = some fd → ∀ b, held (w b).conn.log ≠ some fd) :
      Reached (Function.update w a ((w a).step env i))

theorem registerConnectIo_fd (env : Env) (fd : Nat) (ms : Int) (timerOk : Bool) (o : Object) :
    (o.registerConnectIo env fd ms timerOk).2.conn.fd = fd ∨
      Conn.SameFd o.conn (o.registerConnectIo env fd ms timerOk).2.conn := by
  unfold registerConnectIo ioRegister
  dsimp only
  generalize (if env.ioRegister o.conn.log = true then
    some (IoHandle.mk fd none (some .onConnectReady)) else none) = io
  generalize (if ms = 0 then connectTimeoutDefault else ms) = t
  split
  · exact .inr (.inl rfl)
  split
  · split
    · exact .inl rfl
    · exact (Conn.closeIo_fd _).imp id .inr
  · exact .inl rfl

-- A step keeps the descriptor, gives it up, or takes the one that is handed over.
theorem step_fd (env : Env) (o : Object) (i : ObjectInput) :
    Conn.SameFd o.conn (o.step env i).conn ∨
      ∃ fd : Nat, descriptor i = some fd ∧ (o.step env i).conn.fd = fd := by
  have hopened : ∀ o' : Object, o'.conn = o.conn → Conn.SameFd o.conn (opened env o').conn := by
    intro o' heq
    have hio := Conn.updateIo_fd env { o'.conn with state := .opened }
    rw [show ({ o'.conn with state := .opened } : Conn) = { o.conn with state := .opened } by
      rw [heq]] at hio
    unfold opened onConn
    dsimp only
    rw [heq]
    split <;> exact hio
  unfold step
  split
  · exact .inl (.inl rfl)
  cases i with
  | openConn host port init recvOk res timerOk =>
      simp only [returned, openConn]
      split
      · rename_i host init
        split
        · exact .inl (.inl rfl)
        have hfd : (o.setupRecv init.recvBufSize recvOk).2.conn.fd = o.conn.fd :=
          congrArg Conn.fd (setupRecv_conn init.recvBufSize recvOk o).1
        split
        · exact .inl (.inl hfd)
        generalize (o.setupRecv init.recvBufSize recvOk).2 = o₁ at hfd ⊢
        split
        · exact .inl (.inl hfd)
        · exact .inl (.inl hfd)
        · rename_i fd
          rcases registerConnectIo_fd env fd init.connectTimeoutMs timerOk
            ((o₁.emit (.socket host port (.started fd))).emit (.callbacks init.toCallbacks)) with hnew | hsame'
          · exact .inr ⟨fd, rfl, hnew⟩
          · have hsame : Conn.SameFd o.conn
                ((o₁.emit (.socket host port (.started fd))).emit (.callbacks init.toCallbacks)).conn :=
              .inl hfd
            exact .inl (hsame.trans hsame')
      · exact .inl (.inl rfl)
  | accept fd fcntlOk init recvOk =>
      simp only [returned, accept]
      split
      · rename_i init
        split
        · exact .inl (.inl rfl)
        rename_i hcheck
        have hpos : 0 ≤ fd := by
          simp only [Bool.or_eq_true, decide_eq_true_eq, not_or] at hcheck
          exact Int.not_lt.mp hcheck.1.1.1
        split
        · exact .inl (.inl rfl)
        have hfd : (o.setupRecv init.recvBufSize recvOk).2.conn.fd = o.conn.fd :=
          congrArg Conn.fd (setupRecv_conn init.recvBufSize recvOk o).1
        split
        · exact .inl (.inl hfd)
        split
        · exact .inl (.inr rfl)
        · exact .inr ⟨fd.toNat, if_pos hpos, (Int.toNat_of_nonneg hpos).symm⟩
      · exact .inl (.inl rfl)
  | connectReady soOk =>
      dsimp only
      split
      · unfold onConnectReady
        split
        · exact .inl (.inl rfl)
        dsimp only
        split
        · exact .inl (Conn.teardown_fd _ _)
        · exact .inl (hopened _ rfl)
      · exact .inl (.inl rfl)
  | connectTimeout =>
      dsimp only
      split
      · unfold onConnectTimeout
        split
        · exact .inl (.inl rfl)
        · exact .inl (Conn.teardown_fd _ _)
      · exact .inl (.inl rfl)
  | firstReady =>
      dsimp only
      split
      · unfold onFirstReady
        split
        · exact .inl (.inl rfl)
        · exact .inl (hopened _ rfl)
      · exact .inl (.inl rfl)
  | readable n =>
      dsimp only
      split
      · exact .inl (Conn.onReadable_fd n (o.conn.emit .read))
      · exact .inl (.inl rfl)
  | writeReady =>
      refine .inl ?_
      simp only [onConn, Conn.step]
      split
      · exact Conn.onWriteReady_fd env o.conn
      · exact .inl rfl
  | write data => exact .inl (Conn.write_fd env data o.conn)
  | shutdown wr rd => exact .inl (.inl (Conn.shutdown_fd wr rd o.conn))
  | setCallbacks cb => exact .inl (.inl rfl)
  | setNoDelay on =>
      refine .inl (.inl ?_)
      simp only [setNoDelay]
      split <;> rfl
  | close => exact .inl (Conn.closeIo_fd o.conn)
  | destroy => exact .inl (Conn.closeIo_fd { o.conn with destroyed := true })

theorem Reached.sane {w : Nat → Object} (h : Reached w) (a : Nat) : (w a).Sane := by
  induction h generalizing a with
  | start => exact create_sane
  | @step w h env b i hnew ih =>
      by_cases hab : a = b
      · subst hab
        rw [Function.update_self]
        exact step_sane env (ih a) i
      · rw [Function.update_of_ne hab]
        exact ih a

-- No two objects hold one descriptor.
theorem Reached.apart {w : Nat → Object} (h : Reached w) {a b : Nat} (hab : a ≠ b) {fd : Nat}
    (ha : held (w a).conn.log = some fd) : held (w b).conn.log ≠ some fd := by
  induction h generalizing a b fd with
  | start => cases ha
  | @step w h env x i hnew ih =>
      have hkept : held (Function.update w x ((w x).step env i) x).conn.log = some fd →
          held (w x).conn.log = some fd ∨ descriptor i = some fd := by
        intro hheld
        rw [Function.update_self] at hheld
        have hold := (h.sane x).owner
        have hnow := (step_sane env (h.sane x) i).owner
        rw [hnow.held] at hheld
        split_ifs at hheld with hneg
        rw [Option.some.injEq] at hheld
        rcases step_fd env (w x) i with (hsame | hminus) | ⟨new, hdesc, hfd⟩
        · rw [hsame] at hheld hneg
          exact .inl (by rw [hold.held, if_neg hneg, hheld])
        · omega
        · rw [hfd, Int.toNat_natCast] at hheld
          exact .inr (hheld ▸ hdesc)
      by_cases hax : a = x
      · subst hax
        rw [Function.update_of_ne (Ne.symm hab)]
        rcases hkept ha with hheld | hdesc
        · exact ih hab hheld
        · exact hnew fd hdesc b
      · rw [Function.update_of_ne hax] at ha
        by_cases hbx : b = x
        · subst hbx
          intro hb
          rcases hkept hb with hheld | hdesc
          · exact ih hab ha hheld
          · exact hnew fd hdesc a ha
        · rw [Function.update_of_ne hbx]
          exact ih hab ha

-- Everything works, and the kernel takes all it is given.
def permissive : Env := ⟨fun _ => true, fun _ => true, fun _ data => .wrote data.length⟩

def plainInit : Init := ⟨⟨0, true, true, true, true⟩, 0, 0⟩

end Object

end Sevent.Tcp
