import Sevent.Http.Reparse

-- The transitions of a connection over whole runs.
namespace Sevent.Http

variable {env : Env} {c : Conn}

-- ---- a write that is taken ----

theorem terminate_gone (hlive : c.dead = false) : (c.terminate env).stream = false := by
  have hfree : ∀ d : Conn, (d.free env).stream = d.stream := by
    intro d
    have hnotified : (if env.onConnClose && !d.released then d.emit .onConnClose else d).stream = d.stream := by
      split <;> rfl
    unfold Conn.free
    dsimp only
    generalize (if env.onConnClose && !d.released then d.emit .onConnClose else d) = e at hnotified ⊢
    split <;> exact hnotified
  unfold Conn.terminate
  rw [if_neg (by rw [hlive]; decide)]
  exact hfree _

-- It is queued, or it has torn the stream down.
theorem streamWrite_taken (hlive : c.dead = false) (hreleased : c.released = false) {data : Bytes} {d : Conn}
    (h : c.streamWrite env data = (Err.success, d)) :
    c.stream = true ∧ (env.write c.log = .ok ∧ d = c.emit (.written data .ok) ∨
      env.write c.log = .torn true ∧ d.state = .closed ∧ d.stream = false) := by
  by_cases hstream : c.stream = true
  swap
  · rw [streamWrite_gone (eq_false_of_ne_true hstream)] at h
    exact absurd (congrArg Prod.fst h) (by decide : Err.inval ≠ Err.success)
  refine ⟨hstream, ?_⟩
  have hret : (env.write c.log).ret = Err.success :=
    (streamWrite_accepted hstream data).1.symm.trans (congrArg Prod.fst h)
  cases hres : env.write c.log with
  | ok =>
      rw [streamWrite_ok hstream data hres] at h
      exact .inl ⟨rfl, (congrArg Prod.snd h).symm⟩
  | nomem =>
      rw [hres] at hret
      exact absurd hret (by decide)
  | inval =>
      rw [hres] at hret
      exact absurd hret (by decide)
  | failed err =>
      rw [hres] at hret
      exact absurd hret (by decide : Err.write ≠ Err.success)
  | torn accepted =>
      cases accepted with
      | false =>
          rw [hres] at hret
          exact absurd hret (by decide)
      | true =>
          right
          have hd : d = (c.emit (.written data (.torn true))).terminate env := by
            have hnot : (c.emit (.written data (.torn true))).released = false := hreleased
            unfold Conn.streamWrite at h
            rw [if_neg (by rw [hstream]; decide), hres] at h
            dsimp only at h
            rw [if_neg (by rw [hnot]; decide)] at h
            exact (congrArg Prod.snd h).symm
          have hlive' : (c.emit (.written data (.torn true))).dead = false := hlive
          rw [hd]
          exact ⟨rfl, terminate_closed hlive', terminate_gone hlive'⟩

theorem streamWrite_torn (hstream : c.stream = true) (hlive : c.dead = false) (hreleased : c.released = false)
    (data : Bytes) (h : env.write c.log = .torn true) :
    ∃ d, c.streamWrite env data = (Err.success, d) ∧ d.state = .closed := by
  have hret : (c.streamWrite env data).1 = Err.success := by
    rw [(streamWrite_accepted hstream data).1, h]
    rfl
  refine ⟨(c.streamWrite env data).2, Prod.ext hret rfl, ?_⟩
  refine streamWrite_ended hstream hlive hreleased data (by rw [h]; decide) ?_
  rw [h]
  rintro (hno | hno) <;> cases hno

-- ---- the response that is completed on a closed connection ----

-- The last write of a response that keeps the connection open is taken and tears the stream down.
structure TornOpen (env : Env) (c : Conn) (resp : Response) : Prop where
  state : c.state = .request ∨ c.state = .awaitResp
  wrote : c.wrote = false
  stream : c.stream = true
  alloc : env.alloc c.log = true
  keep : (resp.close || !c.reqKeepAlive) = false
  writes : ∃ text head, respondText resp = some text ∧ respondHead resp text false = some head ∧
    (resp.bodyLen = 0 ∧ env.write (c.log ++ [.alloc true]) = .torn true ∨
      0 < resp.bodyLen ∧ env.write (c.log ++ [.alloc true]) = .ok ∧
        env.write (c.log ++ [.alloc true, .written head .ok]) = .torn true)

def Act.torn (env : Env) : Act → Prop
  | .call c (.respond resp) => TornOpen env (c.emit (.called (.respond resp))) resp
  | _ => False

theorem closeGraceful_legal (h : Legal c.log) : Legal c.closeGraceful.log := by
  unfold Conn.closeGraceful
  dsimp only
  split
  · exact h
  rename_i hd
  have hset : Legal (c.stateSet .closing).log := h.append (stateOk_closing (eq_false_of_ne_true hd))
  split
  · exact hset.append rfl
  · exact hset

theorem responseComplete_legal (h : Legal c.log) (hok : c.closePending = true ∨ stateOk c.state .parsing = true)
    (wasAsync : Bool) : Legal (c.responseComplete env wasAsync).log := by
  have hnote : Legal (c.emit (.completing c.state c.closePending)).log := h.append rfl
  unfold Conn.responseComplete
  dsimp only
  split
  · exact closeGraceful_legal hnote
  rename_i hopen
  have hok : stateOk c.state .parsing = true := hok.resolve_left hopen
  have hset : Legal (((c.emit (.completing c.state c.closePending)).stateSet .parsing).idleReset env).log :=
    (Level.idleReset env _).legal (hnote.append hok)
  split
  · have hpost := (Level.post env _ .process).legal hset
    split
    · exact hpost
    · exact closeGraceful_legal hpost
  · exact hset

theorem responseComplete_leaves (hopen : c.closePending = false) (wasAsync : Bool) :
    .state c.state .parsing ∈ (c.responseComplete env wasAsync).log := by
  have hset : c.log ++ [.completing c.state c.closePending] ++ [.state c.state .parsing] <+:
      (((c.emit (.completing c.state c.closePending)).stateSet .parsing).idleReset env).log :=
    Conn.idleReset_grows List.prefix_rfl
  have hmem : ∀ {log : List Event}, c.log ++ [.completing c.state c.closePending] ++ [.state c.state .parsing] <+: log →
      .state c.state .parsing ∈ log :=
    fun hp => hp.subset (List.mem_append_right _ (List.mem_singleton.mpr rfl))
  have hnot : ¬ (c.emit (.completing c.state c.closePending)).closePending = true := by
    have hsame : (c.emit (.completing c.state c.closePending)).closePending = c.closePending := rfl
    rw [hsame, hopen]
    decide
  unfold Conn.responseComplete
  dsimp only
  rw [if_neg hnot]
  split
  · have hpost := hset.trans (List.prefix_append _ [Event.posted .process (env.post
      (((c.emit (.completing c.state c.closePending)).stateSet .parsing).idleReset env).log)])
    split
    · exact hmem hpost
    · exact hmem (Conn.closeGraceful_grows hpost)
  · exact hmem hset

-- A response is built on a connection that it leaves closed only by a torn write.
theorem respondBuild_torn (hstate : c.state = .request ∨ c.state = .awaitResp) (hwrote : c.wrote = false)
    (hreleased : c.released = false) {resp : Response} {close : Bool} {d : Conn}
    (hbuild : c.respondBuild env resp false = (Err.success, close, d)) (hclosed : d.state = .closed) :
    close = true ∨ TornOpen env c resp := by
  have hlive : c.dead = false := by rcases hstate with h | h <;> rw [Conn.dead, h] <;> rfl
  obtain ⟨hclose, text, head, htext, hhead, -⟩ := respondBuild_queued hbuild
  cases hkeep : resp.close || !c.reqKeepAlive with
  | true => exact .inl (hclose.trans hkeep)
  | false =>
  right
  rw [hclose, hkeep] at hhead
  have halloc : env.alloc c.log = true := by
    by_contra hno
    rw [respondBuild_noMemory htext (eq_false_of_ne_true hno)] at hbuild
    exact absurd (congrArg Prod.fst hbuild) (by decide : Err.nomem ≠ Err.success)
  have hopen : ∀ e : Conn, e.state = c.state → e.state ≠ .closed := by
    intro e hsame
    rw [hsame]
    rcases hstate with h | h <;> rw [h] <;> decide
  obtain ⟨rc, d₁, hwrite⟩ : ∃ rc d₁, (c.emit (.alloc true)).streamWrite env head = (rc, d₁) := ⟨_, _, rfl⟩
  obtain ⟨rc', d₂, hbody⟩ : ∃ rc' d₂, d₁.streamWrite env ((resp.body.getD []).take resp.bodyLen) = (rc', d₂) :=
    ⟨_, _, rfl⟩
  have hhead' : respondHead resp text (resp.close || false || !c.reqKeepAlive) = some head := by
    rw [Bool.or_false, hkeep]
    exact hhead
  rw [respondBuild_head htext halloc hhead' hwrite hbody] at hbuild
  split at hbuild
  · exact absurd (congrArg Prod.fst hbuild) (by decide : Err.write ≠ Err.success)
  rename_i hrc
  rw [not_not.mp hrc] at hwrite
  obtain ⟨hstream, hfirst⟩ := streamWrite_taken (c := c.emit (.alloc true)) hlive hreleased hwrite
  split at hbuild
  · rename_i hlen
    split at hbuild
    · exact absurd (congrArg Prod.fst hbuild) (by decide : Err.write ≠ Err.success)
    rename_i hrc'
    rw [not_not.mp hrc'] at hbody
    obtain rfl : d₂ = d := (Prod.mk.inj (Prod.mk.inj hbuild).2).2
    rcases hfirst with ⟨hok, rfl⟩ | ⟨-, -, hgone⟩
    · obtain ⟨-, hsecond⟩ := streamWrite_taken (c := (c.emit (.alloc true)).emit (.written head .ok)) hlive
        hreleased hbody
      rcases hsecond with ⟨-, rfl⟩ | ⟨htorn, -⟩
      · exact absurd hclosed (hopen _ rfl)
      · have hlog : ((c.emit (.alloc true)).emit (.written head .ok)).log =
            c.log ++ [.alloc true, .written head .ok] := List.append_assoc _ _ _
        rw [hlog] at htorn
        exact ⟨hstate, hwrote, hstream, halloc, hkeep, text, head, htext, hhead, .inr ⟨hlen, hok, htorn⟩⟩
    · rw [streamWrite_gone hgone] at hbody
      exact absurd (congrArg Prod.fst hbody) (by decide : Err.inval ≠ Err.success)
  · rename_i hlen
    obtain rfl : d₁ = d := (Prod.mk.inj (Prod.mk.inj hbuild).2).2
    rcases hfirst with ⟨-, rfl⟩ | ⟨htorn, -⟩
    · exact absurd hclosed (hopen _ rfl)
    · exact ⟨hstate, hwrote, hstream, halloc, hkeep, text, head, htext, hhead,
        .inl ⟨Nat.eq_zero_of_not_pos hlen, htorn⟩⟩

theorem respondBuild_closed {resp : Response} (h : TornOpen env c resp) (hreleased : c.released = false) :
    ∃ d, c.respondBuild env resp false = (Err.success, false, d) ∧ d.state = .closed := by
  have hlive : c.dead = false := by rcases h.state with hs | hs <;> rw [Conn.dead, hs] <;> rfl
  obtain ⟨text, head, htext, hhead, hwrites⟩ := h.writes
  have hclose : (resp.close || false || !c.reqKeepAlive) = false := by rw [Bool.or_false, h.keep]
  rcases hwrites with ⟨hlen, htorn⟩ | ⟨hlen, hok, htorn⟩
  · obtain ⟨d, hwrite, hclosed⟩ := streamWrite_torn (c := c.emit (.alloc true)) h.stream hlive hreleased head htorn
    refine ⟨d, ?_, hclosed⟩
    rw [respondBuild_head htext h.alloc (hclose.symm ▸ hhead) hwrite rfl, if_neg (by decide),
      if_neg (by rw [hlen]; decide), hclose]
  · have hlog : ((c.emit (.alloc true)).emit (.written head .ok)).log =
        c.log ++ [.alloc true, .written head .ok] := List.append_assoc _ _ _
    rw [← hlog] at htorn
    obtain ⟨d, hbody, hclosed⟩ := streamWrite_torn (c := (c.emit (.alloc true)).emit (.written head .ok)) h.stream
      hlive hreleased ((resp.body.getD []).take resp.bodyLen) htorn
    refine ⟨d, ?_, hclosed⟩
    rw [respondBuild_head htext h.alloc (hclose.symm ▸ hhead)
      (streamWrite_ok (c := c.emit (.alloc true)) h.stream head hok) hbody, if_neg (by decide), if_pos hlen,
      if_neg (by decide), hclose]

theorem respond_legal (h : Orderly c) (resp : Response) (hlegal : Legal c.log) :
    Legal (c.respond env resp).2.log ↔ ¬ TornOpen env c resp := by
  constructor
  · intro hafter htorn
    have hreleased := h.notReleased fun hs => by rcases htorn.state with h | h <;> cases hs.symm.trans h
    obtain ⟨d, hbuild, hclosed⟩ := respondBuild_closed htorn hreleased
    have hlevel := Level.respondBuild env c resp false
    rw [hbuild] at hlevel
    have hpending : d.closePending = false := by
      have hkeep := (Bool.or_eq_false_iff.mp htorn.keep).2
      rw [hlevel.closePending, h.request (htorn.state.imp_right .inl), hkeep]
    rw [respond_eq htorn.state htorn.wrote resp hbuild, if_neg (by decide)] at hafter
    have hleaves : ∀ {e : Conn} (wasAsync : Bool), e.closePending = false →
        .state e.state .parsing ∈ (e.responseComplete env wasAsync).log := fun wasAsync hopen =>
      responseComplete_leaves hopen wasAsync
    have hopen : { d with closePending := d.closePending || false }.closePending = false := by
      rw [hpending]
      rfl
    have hmem := hleaves (d.state == ConnState.awaitResp) hopen
    have hbad := hafter _ hmem
    have hstate : { d with closePending := d.closePending || false }.state = .closed := hclosed
    rw [Event.legal, hstate] at hbad
    cases hbad
  · intro htorn
    by_cases hstate : c.state = .request ∨ c.state = .awaitResp
    swap
    · unfold Conn.respond
      rw [if_pos (not_or.mp hstate)]
      exact hlegal
    by_cases hwrote : c.wrote = true
    · unfold Conn.respond
      rw [if_neg (by tauto), if_pos hwrote]
      exact hlegal
    have hwrote : c.wrote = false := eq_false_of_ne_true hwrote
    have hreleased := h.notReleased fun hs => by rcases hstate with h | h <;> cases hs.symm.trans h
    have hlevel := Level.respondBuild env c resp false
    obtain ⟨rc, close, d, hbuild⟩ : ∃ rc close d, c.respondBuild env resp false = (rc, close, d) := ⟨_, _, _, rfl⟩
    rw [hbuild] at hlevel
    rw [respond_eq hstate hwrote resp hbuild]
    split
    · exact hlevel.legal hlegal
    rename_i hrc
    rw [not_not.mp hrc] at hbuild
    have hlegal' : Legal { d with closePending := d.closePending || close }.log := hlevel.legal hlegal
    refine responseComplete_legal hlegal' ?_ _
    rcases hlevel.state with hs | ⟨-, hclosed⟩
    · right
      have hs : { d with closePending := d.closePending || close }.state = c.state := hs
      rw [hs]
      rcases hstate with h | h <;> rw [h] <;> rfl
    · left
      have hclose : close = true := (respondBuild_torn hstate hwrote hreleased hbuild hclosed).resolve_right htorn
      show (d.closePending || close) = true
      rw [hclose, Bool.or_true]

-- ---- the other calls ----

theorem write_legal (data : Option Bytes) (h : Legal c.log) : Legal (c.write env data).2.log := by
  unfold Conn.write
  cases data with
  | none => exact h
  | some data =>
  dsimp only
  split
  · exact h
  split
  · exact h
  have hw := (Level.streamWrite env c data).legal h
  split
  · exact hw
  split
  · rename_i hstate
    have hstate : (c.streamWrite env data).2.state = .awaitResp := hstate
    have hok : stateOk (c.streamWrite env data).2.state .responding = true := by
      rw [hstate]
      rfl
    exact hw.append hok
  · exact hw

theorem writeEnd_legal (h : Legal c.log) : Legal (c.writeEnd env).2.log := by
  unfold Conn.writeEnd
  split
  · exact h
  rename_i hstate
  have hcases : c.state = .request ∨ c.state = .responding := by tauto
  refine responseComplete_legal h (.inr ?_) _
  rcases hcases with hs | hs <;> rw [hs] <;> rfl

theorem close_legal (h : Legal c.log) : Legal c.close.log := by
  have hflag : Legal { c with closePending := true }.log := h
  unfold Conn.close
  split
  · exact h
  · exact closeGraceful_legal hflag

theorem release_legal (h : Legal c.log) : Legal c.release.2.log := by
  unfold Conn.release
  split
  · exact h
  split
  · exact h
  · rename_i hstate
    have hok : stateOk c.state .released = true := by
      rw [not_not.mp hstate]
      rfl
    have hset : Legal ({ c with released := true }.stateSet .released).log := h.append hok
    exact (Level.idleStop _).legal hset

theorem begin_legal (hstate : c.state = .parsing) (m : Msg) (h : Legal c.log) : Legal (c.begin m).log := by
  have hok : stateOk c.state .request = true := by
    rw [hstate]
    rfl
  exact h.append hok

theorem internal_legal (status : Int) (closeIt : Bool) (h : Legal c.log) :
    Legal (c.respondInternal env status closeIt).log := by
  unfold Conn.respondInternal
  split
  · exact h
  dsimp only
  have hbuild := (Level.respondBuild env c
    { status := status, text := none, close := false, body := none, bodyLen := 0, headers := [] } closeIt).legal h
  split
  · exact hbuild
  · exact closeGraceful_legal (c := { (c.respondBuild env _ closeIt).2.2 with closePending := true }) hbuild

theorem settled_legal (hstate : c.state = .request) (h : Legal c.log) :
    Legal ((c.stateSet (if c.wrote then .responding else .awaitResp)).idleReset env).log := by
  have hok : stateOk c.state (if c.wrote then .responding else .awaitResp) = true := by
    rw [hstate]
    cases c.wrote <;> rfl
  exact (Level.idleReset env _).legal (h.append hok)

theorem opened_legal (hnew : c.state = .new) (h : Legal c.log) :
    Legal ((c.stateSet .parsing).idleReset env).log := by
  have hok : stateOk c.state .parsing = true := by
    rw [hnew]
    rfl
  exact (Level.idleReset env _).legal (h.append hok)

-- A call keeps to the matrix unless it is such a response.
theorem call_legal (h : Orderly c) (a : Api) (hlegal : Legal c.log) :
    Legal (c.call env a).log ↔ ¬ Act.torn env (.call c a) := by
  have hcalled : Legal (c.emit (.called a)).log := hlegal.append rfl
  have horderly : Orderly (c.emit (.called a)) := h.level (.emit c rfl)
  have hreturned : ∀ {d : Conn} {rc : Int}, Legal (d.emit (.returned rc)).log ↔ Legal d.log :=
    ⟨fun hd => hd.earlier (List.prefix_append _ _), fun hd => hd.append rfl⟩
  have hothers : Legal (c.call env a).log → ¬ False → (Legal (c.call env a).log ↔ ¬ False) :=
    fun hd hf => iff_of_true hd hf
  cases a with
  | respond resp =>
      have hcall : (c.call env (.respond resp)).log = (((c.emit (.called (.respond resp))).respond env resp).2.emit
          (.returned ((c.emit (.called (.respond resp))).respond env resp).1)).log := rfl
      rw [hcall, hreturned]
      exact respond_legal horderly resp hcalled
  | write data => exact hothers (hreturned.mpr (write_legal data hcalled)) id
  | writeEnd => exact hothers (hreturned.mpr (writeEnd_legal hcalled)) id
  | close => exact hothers (hreturned.mpr (close_legal hcalled)) id
  | release => exact hothers (hreturned.mpr (release_legal hcalled)) id

-- ---- over whole runs ----

theorem call_grows (env : Env) (c : Conn) (a : Api) : c.log <+: (c.call env a).log :=
  (Conn.grows_upheld env c.log).call a List.prefix_rfl

theorem begin_grows (c : Conn) (m : Msg) : c.log <+: (c.begin m).log := List.prefix_append _ _

theorem internal_grows (env : Env) (c : Conn) (status : Int) : c.log <+: (c.respondInternal env status true).log :=
  (Conn.grows_upheld env c.log).internal status List.prefix_rfl

-- A moment that adds to the log only transitions of the matrix.
theorem same_legal {d : Conn} (hgrows : c.log <+: d.log) (hlegal : Legal c.log → Legal d.log) :
    Legal d.log ↔ Legal c.log :=
  ⟨fun h => h.earlier hgrows, hlegal⟩

-- A message is no response.
theorem dispatched_legal {acts : List Act} (m : Msg) :
    (∀ act ∈ acts ++ [.dispatch c m], ¬ act.torn env) ↔ ∀ act ∈ acts, ¬ act.torn env := by
  rw [List.forall_mem_append, and_iff_left]
  intro act hact
  rw [List.mem_singleton.mp hact]
  exact id

theorem Course.legal_iff {recvCap : Nat} {acts : List Act} {c : Conn} (h : Course env recvCap acts c) :
    Legal c.log ↔ ∀ act ∈ acts, ¬ act.torn env := by
  induction h with
  | accepted =>
      have hnone : ∀ act ∈ ([] : List Act), ¬ act.torn env := fun _ hact => absurd hact List.not_mem_nil
      exact iff_of_true (fun _ he => absurd he List.not_mem_nil) hnone
  | @call acts c a hcourse ih =>
      rw [List.forall_mem_append, ← ih, List.forall_mem_singleton]
      constructor
      · intro hafter
        have hbefore := hafter.earlier (call_grows env c a)
        exact ⟨hbefore, (call_legal hcourse.orderly a hbefore).mp hafter⟩
      · intro hboth
        exact (call_legal hcourse.orderly a hboth.1).mpr hboth.2
  | onAccept _ _ ih => exact (same_legal (List.prefix_append _ _) fun h => h.append rfl).trans ih
  | opened hnew _ ih =>
      exact (same_legal (Conn.idleReset_grows (List.prefix_append _ _)) (opened_legal hnew)).trans ih
  | @onRequest acts c m cb hstate _ _ _ _ ih =>
      have hgrows : c.log <+: ((c.begin m).emit (.onRequest (m.view c.recv))).log :=
        (begin_grows c m).trans (List.prefix_append _ _)
      rw [dispatched_legal, ← ih]
      exact same_legal hgrows fun h => (begin_legal hstate m h).append rfl
  | @onUpgrade acts c m cb hstate _ _ _ _ ih =>
      have hgrows : c.log <+: ((c.begin m).emit (.onUpgrade (m.view c.recv))).log :=
        (begin_grows c m).trans (List.prefix_append _ _)
      rw [dispatched_legal, ← ih]
      exact same_legal hgrows fun h => (begin_legal hstate m h).append rfl
  | @unheard acts c m hstate _ _ _ _ ih =>
      rw [dispatched_legal, ← ih]
      exact same_legal (begin_grows c m) (begin_legal hstate m)
  | @declined acts c m hstate _ _ _ _ ih =>
      rw [dispatched_legal, ← ih]
      exact same_legal ((begin_grows c m).trans (internal_grows env _ 400)) fun h =>
        internal_legal 400 true (begin_legal hstate m h)
  | @internal acts c status _ _ ih => exact (same_legal (internal_grows env c status) (internal_legal status true)).trans ih
  | settled hstate _ ih =>
      exact (same_legal (Conn.idleReset_grows (List.prefix_append _ _)) (settled_legal hstate)).trans ih
  | recv _ _ ih => exact ih
  | idleStop _ ih => exact (same_legal (Level.idleStop _).grows (Level.idleStop _).legal).trans ih
  | idleReset _ ih => exact (same_legal (Level.idleReset env _).grows (Level.idleReset env _).legal).trans ih
  | post _ ih => exact (same_legal (Level.post env _ _).grows (Level.post env _ _).legal).trans ih
  | popped _ _ ih => exact ih
  | closeGraceful _ ih => exact (same_legal (Conn.closeGraceful_grows List.prefix_rfl) closeGraceful_legal).trans ih
  | terminate _ ih => exact (same_legal (Level.terminate env _).grows (Level.terminate env _).legal).trans ih
  | cleanup _ ih => exact (same_legal (List.prefix_append _ _) fun h => h.append rfl).trans ih

-- The transitions of a run are those of the matrix exactly when no response that keeps its
-- connection open is torn down by its own last write.
theorem transitions_legal_iff (env : Env) (recvCap : Nat) :
    (∀ steps, ∃ acts, Course env recvCap acts ((Conn.accepted recvCap).run env steps)) ∧
      ∀ (acts : List Act) (c : Conn), Course env recvCap acts c →
        (Legal c.log ↔ ∀ act ∈ acts, ¬ act.torn env) :=
  ⟨Reached.run env recvCap, fun _ _ h => h.legal_iff⟩

-- A stream that cannot register its socket again after the first write.
def unregistered : Env := { silent with write := fun _ => .torn true }

def answerLater : List Step :=
  [.opened, .data (ascii "GET / HTTP/1.1\r\n\r\n"), .call (.respond badRequest)]

-- CLOSED is left for PARSING.
theorem closed_left : ¬ Legal ((Conn.accepted 64).run unregistered answerLater).log := by
  intro h
  have hbad := h (.state .closed .parsing) (by decide +kernel)
  cases hbad

end Sevent.Http
