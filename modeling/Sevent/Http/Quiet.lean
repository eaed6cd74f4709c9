import Sevent.Http.Untouched

-- What the functions of a connection leave out of a view of the log, whatever the layers below do.
namespace Sevent.Http

variable {β : Type}

-- A view of the log that does not show what the connection does to itself.
structure Unseen (f : Event → Option β) : Prop where
  state : ∀ old next, f (.state old next) = none
  completing : ∀ s closePending, f (.completing s closePending) = none
  shutdown : f .shutdown = none
  posted : ∀ p ok, f (.posted p ok) = none
  timerRegister : ∀ ms ok, f (.timerRegister ms ok) = none
  timerUnregister : f .timerUnregister = none
  onConnClose : f .onConnClose = none
  freed : f .freed = none

-- Nor what a call does.
structure Untold (f : Event → Option β) : Prop extends Unseen f where
  called : ∀ a, f (.called a) = none
  returned : ∀ rc, f (.returned rc) = none
  alloc : ∀ ok, f (.alloc ok) = none
  written : ∀ data res, f (.written data res) = none

-- Nothing is read, and nothing is added to the view.
structure Quiet (f : Event → Option β) (c c' : Conn) : Prop where
  recv : c'.recv = c.recv
  view : c'.log.filterMap f = c.log.filterMap f

namespace Quiet

variable {f : Event → Option β}

theorem refl (c : Conn) : Quiet f c c := ⟨rfl, rfl⟩

theorem trans {a b c : Conn} (h : Quiet f a b) (h' : Quiet f b c) : Quiet f a c :=
  ⟨h'.recv.trans h.recv, h'.view.trans h.view⟩

theorem event {c c' : Conn} {e : Event} (hrecv : c'.recv = c.recv) (hlog : c'.log = c.log ++ [e])
    (he : f e = none) : Quiet f c c' := by
  refine ⟨hrecv, ?_⟩
  rw [hlog, List.filterMap_append, List.filterMap_cons_none he, List.filterMap_nil, List.append_nil]

theorem emit (c : Conn) {e : Event} (he : f e = none) : Quiet f c (c.emit e) :=
  event rfl rfl he

theorem flags (c : Conn) (closePending wrote : Bool) :
    Quiet f c { c with closePending := closePending, wrote := wrote } := ⟨rfl, rfl⟩

section

variable (hf : Unseen f)
include hf

theorem stateSet (c : Conn) (next : ConnState) : Quiet f c (c.stateSet next) :=
  event rfl rfl (hf.state _ _)

theorem idleStop (c : Conn) : Quiet f c c.idleStop := by
  unfold Conn.idleStop
  split
  · exact event rfl rfl hf.timerUnregister
  · exact refl c

variable (env : Env)

theorem idleReset (c : Conn) : Quiet f c (c.idleReset env) := by
  unfold Conn.idleReset
  split
  · exact refl c
  · exact (idleStop hf c).trans (event rfl rfl (hf.timerRegister _ _))

theorem post (c : Conn) (p : Post) : Quiet f c (c.post env p).2 := event rfl rfl (hf.posted _ _)

theorem closeGraceful (c : Conn) : Quiet f c c.closeGraceful := by
  unfold Conn.closeGraceful
  dsimp only
  split
  · exact refl c
  split
  · exact (stateSet hf c .closing).trans (emit _ hf.shutdown)
  · exact stateSet hf c .closing

theorem free (c : Conn) : Quiet f c (c.free env) := by
  have hnotified : Quiet f c (if env.onConnClose && !c.released then c.emit .onConnClose else c) := by
    split
    · exact emit c hf.onConnClose
    · exact refl c
  unfold Conn.free
  dsimp only
  generalize (if env.onConnClose && !c.released then c.emit .onConnClose else c) = d at hnotified ⊢
  split
  · exact hnotified.trans (post hf env d .cleanup)
  · exact (hnotified.trans (post hf env d .cleanup)).trans (event rfl rfl hf.freed)

theorem terminate (c : Conn) : Quiet f c (c.terminate env) := by
  have hstopped := (stateSet hf c .closed).trans (idleStop hf (c.stateSet .closed))
  have hstream : ∀ d : Conn, Quiet f d { d with stream := false } := fun d => ⟨rfl, rfl⟩
  unfold Conn.terminate
  split
  · exact refl c
  · exact (hstopped.trans (hstream _)).trans (free hf env _)

theorem responseComplete (c : Conn) (wasAsync : Bool) : Quiet f c (c.responseComplete env wasAsync) := by
  have hnote : Quiet f c (c.emit (.completing c.state c.closePending)) := emit c (hf.completing _ _)
  unfold Conn.responseComplete
  dsimp only
  generalize c.emit (.completing c.state c.closePending) = d at hnote ⊢
  have hset := hnote.trans ((stateSet hf d .parsing).trans (idleReset hf env _))
  split
  · exact hnote.trans (closeGraceful hf d)
  split
  · have hpost := hset.trans (post hf env ((d.stateSet .parsing).idleReset env) .process)
    split
    · exact hpost
    · exact hpost.trans (closeGraceful hf _)
  · exact hset

theorem writeEnd (c : Conn) : Quiet f c (c.writeEnd env).2 := by
  unfold Conn.writeEnd
  split
  · exact refl c
  · exact responseComplete hf env c _

theorem close (c : Conn) : Quiet f c c.close := by
  unfold Conn.close
  split
  · exact refl c
  · exact (flags c true c.wrote).trans (closeGraceful hf _)

theorem release (c : Conn) : Quiet f c c.release.2 := by
  unfold Conn.release
  split
  · exact refl c
  split
  · exact refl c
  · have hmark : Quiet f c { c with released := true } := ⟨rfl, rfl⟩
    exact (hmark.trans (stateSet hf _ .released)).trans (idleStop hf _)

end

section

variable (hf : Untold f) (env : Env)
include hf

theorem streamWrite (c : Conn) (data : Bytes) : Quiet f c (c.streamWrite env data).2 := by
  have hwritten : Quiet f c (c.emit (.written data (env.write c.log))) := emit c (hf.written _ _)
  have hended : Quiet f c (if (c.emit (.written data (env.write c.log))).released then
      c.emit (.written data (env.write c.log))
      else (c.emit (.written data (env.write c.log))).terminate env) := by
    split
    · exact hwritten
    · exact hwritten.trans (terminate hf.toUnseen env _)
  unfold Conn.streamWrite
  split
  · exact refl c
  · dsimp only
    split
    · exact hended
    · exact hended
    · exact hwritten

theorem respondBuild (c : Conn) (resp : Response) (internalClose : Bool) :
    Quiet f c (c.respondBuild env resp internalClose).2.2 := by
  unfold Conn.respondBuild
  split
  · exact refl c
  have halloc : Quiet f c (c.emit (.alloc (env.alloc c.log))) := emit c (hf.alloc _)
  dsimp only
  split
  · exact halloc
  split
  · exact halloc
  rename_i head _
  have hhead := halloc.trans (streamWrite hf env (c.emit (.alloc (env.alloc c.log))) head)
  generalize (c.emit (.alloc (env.alloc c.log))).streamWrite env head = w at hhead ⊢
  have hbody := hhead.trans (streamWrite hf env w.2 ((resp.body.getD []).take resp.bodyLen))
  split
  · exact hhead
  split
  · split <;> exact hbody
  · exact hhead

theorem respondInternal (c : Conn) (status : Int) (closeIt : Bool) :
    Quiet f c (c.respondInternal env status closeIt) := by
  unfold Conn.respondInternal
  split
  · exact refl c
  dsimp only
  have hbuild := respondBuild hf env c
    { status := status, text := none, close := false, body := none, bodyLen := 0, headers := [] } closeIt
  split
  · exact hbuild
  · exact (hbuild.trans (flags _ true _)).trans (closeGraceful hf.toUnseen _)

theorem respond (c : Conn) (resp : Response) : Quiet f c (c.respond env resp).2 := by
  unfold Conn.respond
  split
  · exact refl c
  split
  · exact refl c
  have hbuild := respondBuild hf env c resp false
  dsimp only
  split
  · exact hbuild
  · exact (hbuild.trans (flags _ _ _)).trans (responseComplete hf.toUnseen env _ _)

theorem write (c : Conn) (data : Option Bytes) : Quiet f c (c.write env data).2 := by
  unfold Conn.write
  cases data with
  | none => exact refl c
  | some data =>
  dsimp only
  split
  · exact refl c
  split
  · exact refl c
  have hw := streamWrite hf env c data
  split
  · exact hw
  split
  · exact (hw.trans (flags _ _ true)).trans (stateSet hf.toUnseen _ _)
  · exact hw.trans (flags _ _ true)

theorem call (c : Conn) (a : Api) : Quiet f c (c.call env a) := by
  have hcalled : Quiet f c (c.emit (.called a)) := emit c (hf.called a)
  unfold Conn.call
  refine hcalled.trans ?_
  cases a with
  | respond resp => exact (respond hf env _ resp).trans (emit _ (hf.returned _))
  | write data => exact (write hf env _ data).trans (emit _ (hf.returned _))
  | writeEnd => exact (writeEnd hf.toUnseen env _).trans (emit _ (hf.returned _))
  | close => exact (close hf.toUnseen _).trans (emit _ (hf.returned _))
  | release => exact (release hf.toUnseen _).trans (emit _ (hf.returned _))

theorem calls (c : Conn) (script : List Api) : Quiet f c (c.calls env script) := by
  unfold Conn.calls
  induction script generalizing c with
  | nil => exact refl c
  | cons a rest ih => exact (call hf env c a).trans (ih (c.call env a))

end

end Quiet

end Sevent.Http
