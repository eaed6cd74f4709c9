import Sevent.Http.Server

-- What a call on a connection leaves alone while the layers below work.
namespace Sevent.Http

def requests (log : List Event) : List Request :=
  log.filterMap fun e => match e with | .onRequest r => some r | _ => none

@[simp] theorem requests_append (a b : List Event) : requests (a ++ b) = requests a ++ requests b :=
  List.filterMap_append

structure Untouched (c c' : Conn) : Prop where
  recv : c'.recv = c.recv
  recvCap : c'.recvCap = c.recvCap
  stream : c'.stream = c.stream
  released : c'.released = c.released
  posts : c.posts <+: c'.posts
  tasks : ∀ p ∈ c'.posts, p ∈ c.posts ∨ p = .process
  requests : requests c'.log = requests c.log
  shutdown : .shutdown ∈ c'.log → .shutdown ∈ c.log

namespace Untouched

theorem refl (c : Conn) : Untouched c c :=
  ⟨rfl, rfl, rfl, rfl, List.prefix_refl _, fun _ h => .inl h, rfl, id⟩

theorem trans {a b c : Conn} (h : Untouched a b) (h' : Untouched b c) : Untouched a c where
  recv := h'.recv.trans h.recv
  recvCap := h'.recvCap.trans h.recvCap
  stream := h'.stream.trans h.stream
  released := h'.released.trans h.released
  posts := h.posts.trans h'.posts
  tasks := fun p hp => (h'.tasks p hp).elim (h.tasks p) .inr
  requests := h'.requests.trans h.requests
  shutdown := h.shutdown ∘ h'.shutdown

-- Only fields that no request depends on change, and one harmless event is logged.
theorem of_log {c c' : Conn} {e : Event} (hlog : c'.log = c.log ++ [e])
    (hreq : Http.requests [e] = []) (hsh : e ≠ .shutdown) (hrecv : c'.recv = c.recv)
    (hcap : c'.recvCap = c.recvCap) (hst : c'.stream = c.stream)
    (hrel : c'.released = c.released) (hposts : c'.posts = c.posts) : Untouched c c' where
  recv := hrecv
  recvCap := hcap
  stream := hst
  released := hrel
  posts := hposts ▸ List.prefix_refl _
  tasks := fun p hp => .inl (hposts ▸ hp)
  requests := by rw [hlog, requests_append, hreq, List.append_nil]
  shutdown := by
    rw [hlog, List.mem_append, List.mem_singleton]
    rintro (h | h)
    · exact h
    · exact absurd h.symm hsh

-- The flags of the request in progress.
theorem of_flags (c : Conn) (closePending wrote : Bool) :
    Untouched c { c with closePending := closePending, wrote := wrote } :=
  ⟨rfl, rfl, rfl, rfl, List.prefix_refl _, fun _ h => .inl h, rfl, id⟩

end Untouched

theorem untouched_stateSet (c : Conn) (s : ConnState) : Untouched c (c.stateSet s) :=
  .of_log rfl rfl (by simp) rfl rfl rfl rfl rfl

theorem untouched_idleStop (c : Conn) : Untouched c c.idleStop := by
  unfold Conn.idleStop
  split
  · exact .of_log rfl rfl (by simp) rfl rfl rfl rfl rfl
  · exact .refl c

@[simp] theorem idleStop_state (c : Conn) : c.idleStop.state = c.state := by
  unfold Conn.idleStop
  split <;> rfl

theorem untouched_idleReset (env : Env) (c : Conn) : Untouched c (c.idleReset env) := by
  unfold Conn.idleReset
  split
  · exact .refl c
  · refine (untouched_idleStop c).trans ?_
    exact .of_log rfl rfl (by simp) rfl rfl rfl rfl rfl

@[simp] theorem idleReset_state (env : Env) (c : Conn) : (c.idleReset env).state = c.state := by
  unfold Conn.idleReset
  split
  · rfl
  · exact idleStop_state c

section

-- Writes are queued and posting succeeds.
variable {env : Env} (hwrite : ∀ log, env.write log = .ok) (hpost : ∀ log, env.post log = true)

include hwrite

theorem untouched_streamWrite (c : Conn) (data : Bytes) :
    Untouched c (c.streamWrite env data).2 ∧ (c.streamWrite env data).2.state = c.state := by
  unfold Conn.streamWrite
  split
  · exact ⟨.refl c, rfl⟩
  · simp only [hwrite]
    exact ⟨.of_log rfl rfl (by simp) rfl rfl rfl rfl rfl, rfl⟩

theorem untouched_respondBuild (c : Conn) (resp : Response) (internalClose : Bool) :
    Untouched c (c.respondBuild env resp internalClose).2.2 ∧
      (c.respondBuild env resp internalClose).2.2.state = c.state := by
  unfold Conn.respondBuild
  split
  · exact ⟨.refl c, rfl⟩
  · have halloc : Untouched c (c.emit (.alloc (env.alloc c.log))) :=
      .of_log rfl rfl (by simp) rfl rfl rfl rfl rfl
    simp only
    split
    · exact ⟨halloc, rfl⟩
    · split
      · exact ⟨halloc, rfl⟩
      · next head _ =>
        obtain ⟨hhead, hstate⟩ :=
          untouched_streamWrite hwrite (c.emit (.alloc (env.alloc c.log))) head
        generalize (c.emit (.alloc (env.alloc c.log))).streamWrite env head = w at hhead hstate ⊢
        obtain ⟨rc, c1⟩ := w
        simp only at hhead hstate ⊢
        split
        · exact ⟨halloc.trans hhead, hstate⟩
        · split
          · obtain ⟨hbody, hstate'⟩ :=
              untouched_streamWrite hwrite c1 ((resp.body.getD []).take resp.bodyLen)
            split
            · exact ⟨(halloc.trans hhead).trans hbody, hstate'.trans hstate⟩
            · exact ⟨(halloc.trans hhead).trans hbody, hstate'.trans hstate⟩
          · exact ⟨halloc.trans hhead, hstate⟩

omit hwrite in
theorem dying_stateSet_closing (c : Conn) : (c.stateSet .closing).dying = true := rfl

omit hwrite in
theorem dying_closeGraceful (c : Conn) : c.closeGraceful.dying = true := by
  unfold Conn.closeGraceful
  split
  · next h => exact h
  · simp only
    split <;> rfl

omit hwrite in
include hpost in
theorem untouched_post (c : Conn) :
    (c.post env .process).1 = true ∧ Untouched c (c.post env .process).2 ∧
      (c.post env .process).2.state = c.state ∧ (c.post env .process).2.posts ≠ [] := by
  refine ⟨hpost _, ?_, rfl, ?_⟩
  · simp only [Conn.post, hpost, if_true]
    refine ⟨rfl, rfl, rfl, rfl, List.prefix_append _ _, ?_, ?_, ?_⟩
    · intro p hp
      simpa using hp
    · simp only [requests_append]
      simp [requests]
    · simp
  · simp [Conn.post, hpost]

omit hwrite in
include hpost in
theorem untouched_responseComplete (c : Conn) (wasAsync : Bool)
    (h : (c.responseComplete env wasAsync).dying = false) :
    Untouched c (c.responseComplete env wasAsync) := by
  have hnote : Untouched c (c.emit (.completing c.state c.closePending)) :=
    .of_log rfl rfl (by simp) rfl rfl rfl rfl rfl
  unfold Conn.responseComplete at h ⊢
  dsimp only at h ⊢
  generalize c.emit (.completing c.state c.closePending) = c₁ at h hnote ⊢
  split
  · next hp => rw [if_pos hp, dying_closeGraceful] at h; cases h
  · have hset := hnote.trans ((untouched_stateSet c₁ .parsing).trans (untouched_idleReset env _))
    split
    · obtain ⟨hok, hpost, -, -⟩ := untouched_post hpost ((c₁.stateSet .parsing).idleReset env)
      rw [if_pos hok]
      exact hset.trans hpost
    · exact hset

theorem untouched_respond (hpost : ∀ log, env.post log = true) (c : Conn) (resp : Response)
    (h : (c.respond env resp).2.dying = false) : Untouched c (c.respond env resp).2 := by
  unfold Conn.respond at h ⊢
  split
  · exact .refl c
  · next hs =>
    rw [if_neg hs] at h
    split
    · exact .refl c
    · next hw =>
      rw [if_neg hw] at h
      obtain ⟨hbuild, -⟩ := untouched_respondBuild hwrite c resp false
      generalize c.respondBuild env resp false = b at hbuild h ⊢
      obtain ⟨rc, needShutdown, c1⟩ := b
      simp only at hbuild h ⊢
      split
      · exact hbuild
      · next hrc =>
        rw [if_neg hrc] at h
        have hflags := Untouched.of_flags c1 (c1.closePending || needShutdown) c1.wrote
        exact (hbuild.trans hflags).trans (untouched_responseComplete hpost _ _ h)

theorem untouched_write (c : Conn) (data : Option Bytes) : Untouched c (c.write env data).2 := by
  unfold Conn.write
  split
  · exact .refl c
  · next data =>
    split
    · exact .refl c
    · split
      · exact .refl c
      · obtain ⟨hw, -⟩ := untouched_streamWrite hwrite c data
        generalize c.streamWrite env data = w at hw ⊢
        obtain ⟨rc, c1⟩ := w
        simp only at hw ⊢
        have hmark := Untouched.of_flags c1 c1.closePending true
        split
        · exact hw
        · split
          · exact (hw.trans hmark).trans (untouched_stateSet _ _)
          · exact hw.trans hmark

omit hwrite in
include hpost in
theorem untouched_writeEnd (c : Conn) (h : (c.writeEnd env).2.dying = false) :
    Untouched c (c.writeEnd env).2 := by
  unfold Conn.writeEnd at h ⊢
  split
  · exact .refl c
  · next hs =>
    rw [if_neg hs] at h
    exact untouched_responseComplete hpost c _ h

omit hwrite in
theorem untouched_close (c : Conn) (h : c.close.dying = false) : Untouched c c.close := by
  unfold Conn.close at h ⊢
  split
  · exact .refl c
  · next hd => rw [if_neg hd, dying_closeGraceful] at h; cases h

omit hwrite in
theorem untouched_release (c : Conn) (h : c.release.2.dying = false) :
    Untouched c c.release.2 := by
  unfold Conn.release at h ⊢
  split
  · exact .refl c
  · next hr =>
    rw [if_neg hr] at h
    split
    · exact .refl c
    · next hs =>
      rw [if_neg hs] at h
      simp [Conn.dying, Conn.stateSet] at h

include hpost in
theorem untouched_call (c : Conn) (a : Api) (h : (c.call env a).dying = false) :
    Untouched c (c.call env a) := by
  have hret : ∀ (c : Conn) (rc : Int), Untouched c (c.emit (.returned rc)) := fun c rc =>
    .of_log rfl rfl (by simp) rfl rfl rfl rfl rfl
  have hcall : Untouched c (c.emit (.called a)) := .of_log rfl rfl (by simp) rfl rfl rfl rfl rfl
  refine hcall.trans ?_
  cases a with
  | respond resp => exact (untouched_respond hwrite hpost (c.emit _) resp h).trans (hret _ _)
  | write data => exact (untouched_write hwrite (c.emit _) data).trans (hret _ _)
  | writeEnd => exact (untouched_writeEnd hpost (c.emit _) h).trans (hret _ _)
  | close => exact (untouched_close (c.emit _) h).trans (hret _ _)
  | release => exact (untouched_release (c.emit _) h).trans (hret _ _)

end

-- Nothing leaves CLOSING, CLOSED or RELEASED by a call.
theorem dying_call (env : Env) (c : Conn) (a : Api) (h : c.dying = true) :
    (c.call env a).dying = true := by
  have hs : c.state = .closing ∨ c.state = .closed ∨ c.state = .released := by
    simpa [Conn.dying, or_assoc] using h
  have hreq : c.state ≠ .request := by rcases hs with hs | hs | hs <;> simp [hs]
  have hawait : c.state ≠ .awaitResp := by rcases hs with hs | hs | hs <;> simp [hs]
  have hresp : c.state ≠ .responding := by rcases hs with hs | hs | hs <;> simp [hs]
  cases a with
  | respond resp => simpa [Conn.call, Conn.respond, hreq, hawait, Conn.emit, Conn.dying] using h
  | write data =>
      cases data with
      | none => exact h
      | some data =>
          simpa [Conn.call, Conn.write, hreq, hawait, hresp, Conn.emit, Conn.dying] using h
  | writeEnd => simpa [Conn.call, Conn.writeEnd, hreq, hresp, Conn.emit, Conn.dying] using h
  | close =>
      have hclose : (c.emit (.called .close)).close = c.emit (.called .close) := if_pos h
      show (c.emit (.called .close)).close.dying = true
      rw [hclose]
      exact h
  | release =>
      have hrel : (c.emit (.called .release)).release.2 = c.emit (.called .release) := by
        unfold Conn.release
        split
        · rfl
        · exact congrArg Prod.snd (if_pos hreq)
      show (c.emit (.called .release)).release.2.dying = true
      rw [hrel]
      exact h

theorem untouched_calls {env : Env} (hwrite : ∀ log, env.write log = .ok)
    (hpost : ∀ log, env.post log = true) (c : Conn) (script : List Api)
    (h : (c.calls env script).dying = false) :
    Untouched c (c.calls env script) ∧ c.dying = false := by
  induction script generalizing c with
  | nil => exact ⟨.refl c, h⟩
  | cons a rest ih =>
      obtain ⟨hrest, halive⟩ := ih (c.call env a) h
      refine ⟨(untouched_call hwrite hpost c a halive).trans hrest, ?_⟩
      by_contra hd
      rw [dying_call env c a (by simpa using hd)] at halive
      cases halive

end Sevent.Http
