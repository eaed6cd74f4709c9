import Sevent.Http.Reached
import Sevent.Http.Requests

-- A connection that goes over to the WebSocket layer (sevent_http_conn_i_release in on_upgrade). Every
-- byte that the stream has handed over is in a message that is done with, or goes along.
namespace Sevent.Http

-- on_request does not release, on_upgrade says SEVENT_HTTP_UPGRADE_TAKEN of a connection that has been
-- released, and `passed` holds of the messages that leave the connection where it is.
structure Yields (env : Env) (passed : Msg → Prop) : Prop where
  onRequest : ∀ cb, env.onRequest = some cb → ∀ log, .release ∉ cb log
  taken : ∀ cb, env.onUpgrade = some cb → ∀ c : Conn, c.state = .request → c.released = false →
    (cb c.log).2 = true → (c.calls env (cb c.log).1).released = true
  plain : ∀ m, m.upgrade = false → passed m
  declined : ∀ (c : Conn) (m : Msg), m.upgrade = true → c.state = .request → c.released = false →
    (c.dispatch env m).2.released = false → passed m

-- What the callbacks are told of a message.
def seen (env : Env) (q : Bytes × Msg) : Option Request :=
  if q.2.upgrade then env.onUpgrade.map fun _ => q.2.view q.1
  else env.onRequest.map fun _ => q.2.view q.1

-- ---- who releases ----

namespace Conn

variable {env : Env} {c : Conn}

theorem closeGraceful_released (c : Conn) : c.closeGraceful.released = c.released := by
  unfold Conn.closeGraceful
  dsimp only
  split
  · rfl
  · split <;> rfl

theorem responseComplete_released (env : Env) (c : Conn) (wasAsync : Bool) :
    (c.responseComplete env wasAsync).released = c.released := by
  have hreset : ∀ d : Conn, (d.idleReset env).released = d.released := fun d => (Level.idleReset env d).released
  unfold Conn.responseComplete
  dsimp only
  split
  · exact closeGraceful_released _
  split
  · split
    · exact hreset _
    · exact (closeGraceful_released _).trans (hreset _)
  · exact hreset _

theorem respondInternal_released (env : Env) (c : Conn) (status : Int) (closeIt : Bool) :
    (c.respondInternal env status closeIt).released = c.released := by
  have hbuild := (Level.respondBuild env c
    { status := status, text := none, close := false, body := none, bodyLen := 0, headers := [] } closeIt).released
  unfold Conn.respondInternal
  dsimp only
  split
  · rfl
  split
  · exact hbuild
  · exact (closeGraceful_released _).trans hbuild

-- Only sevent_ws_upgrade releases, and only a connection whose request is being handled.
theorem call_released {a : Api} (ha : a ≠ .release ∨ c.state ≠ .request) :
    (c.call env a).released = c.released := by
  unfold Conn.call
  cases a with
  | respond resp =>
      have hbuild := (Level.respondBuild env (c.emit (.called (.respond resp))) resp false).released
      show ((c.emit (.called (.respond resp))).respond env resp).2.released = c.released
      unfold Conn.respond
      dsimp only
      split
      · rfl
      split
      · rfl
      split
      · exact hbuild
      · exact (responseComplete_released env _ _).trans hbuild
  | write data =>
      show ((c.emit (.called (.write data))).write env data).2.released = c.released
      unfold Conn.write
      cases data with
      | none => rfl
      | some data =>
          have hw := (Level.streamWrite env (c.emit (.called (.write (some data)))) data).released
          dsimp only
          split
          · rfl
          split
          · rfl
          split
          · exact hw
          split
          · exact hw
          · exact hw
  | writeEnd =>
      show ((c.emit (.called .writeEnd)).writeEnd env).2.released = c.released
      unfold Conn.writeEnd
      split
      · rfl
      · exact responseComplete_released env _ _
  | close =>
      show (c.emit (.called .close)).close.released = c.released
      unfold Conn.close
      split
      · rfl
      · exact closeGraceful_released _
  | release =>
      have hstate : (c.emit (.called .release)).state ≠ .request := ha.resolve_left fun h => h rfl
      show (c.emit (.called .release)).release.2.released = c.released
      unfold Conn.release
      split
      · rfl
      · rfl

theorem calls_released {script : List Api} (hscript : .release ∉ script) (c : Conn) :
    (c.calls env script).released = c.released := by
  induction script generalizing c with
  | nil => rfl
  | cons a rest ih =>
      have ha : a ≠ .release := fun h => hscript (h ▸ List.mem_cons_self)
      exact (ih (fun h => hscript (List.mem_cons_of_mem a h)) (c.call env a)).trans (call_released (.inl ha))

theorem closeGraceful_notRequest (c : Conn) : c.closeGraceful.state ≠ .request := by
  intro hstate
  have hdying := dying_closeGraceful c
  rw [Conn.dying, hstate] at hdying
  cases hdying

theorem responseComplete_notRequest (env : Env) (c : Conn) (wasAsync : Bool) :
    (c.responseComplete env wasAsync).state ≠ .request := by
  have hparsing : ∀ d : Conn, ((d.stateSet .parsing).idleReset env).state ≠ .request := by
    intro d
    rw [idleReset_state]
    simp [Conn.stateSet]
  unfold Conn.responseComplete
  dsimp only
  split
  · exact closeGraceful_notRequest _
  split
  · split
    · exact hparsing _
    · exact closeGraceful_notRequest _
  · exact hparsing _

-- A request is taken up by http_process alone.
theorem call_notRequest (hc : c.state ≠ .request) (a : Api) : (c.call env a).state ≠ .request := by
  have hsame : ∀ d : Conn, d.state = c.state ∨ d.state = .closed → d.state ≠ .request := by
    rintro d (h | h) <;> rw [h]
    · exact hc
    · decide
  unfold Conn.call
  cases a with
  | respond resp =>
      have hbuild := respondBuild_state env (c.emit (.called (.respond resp))) resp false
      show ((c.emit (.called (.respond resp))).respond env resp).2.state ≠ .request
      unfold Conn.respond
      dsimp only
      split
      · exact hc
      split
      · exact hc
      split
      · exact hsame _ hbuild
      · exact responseComplete_notRequest env _ _
  | write data =>
      show ((c.emit (.called (.write data))).write env data).2.state ≠ .request
      unfold Conn.write
      cases data with
      | none => exact hc
      | some data =>
          have hw := streamWrite_state env (c.emit (.called (.write (some data)))) data
          dsimp only
          split
          · exact hc
          split
          · exact hc
          split
          · exact hsame _ hw
          split
          · simp [Conn.stateSet]
          · exact hsame _ hw
  | writeEnd =>
      show ((c.emit (.called .writeEnd)).writeEnd env).2.state ≠ .request
      unfold Conn.writeEnd
      split
      · exact hc
      · exact responseComplete_notRequest env _ _
  | close =>
      show (c.emit (.called .close)).close.state ≠ .request
      unfold Conn.close
      split
      · exact hc
      · exact closeGraceful_notRequest _
  | release =>
      have hstate : (c.emit (.called .release)).state ≠ .request := hc
      show (c.emit (.called .release)).release.2.state ≠ .request
      unfold Conn.release
      split
      · exact hc
      · exact hc

theorem respondInternal_notRequest (hc : c.state ≠ .request) (status : Int) (closeIt : Bool) :
    (c.respondInternal env status closeIt).state ≠ .request := by
  have hbuild := respondBuild_state env c
    { status := status, text := none, close := false, body := none, bodyLen := 0, headers := [] } closeIt
  unfold Conn.respondInternal
  dsimp only
  split
  · exact hc
  split
  · rcases hbuild with h | h <;> rw [h]
    · exact hc
    · decide
  · exact closeGraceful_notRequest _

theorem calls_aside {script : List Api} (hc : c.state ≠ .request) :
    (c.calls env script).released = c.released ∧ (c.calls env script).state ≠ .request := by
  induction script generalizing c with
  | nil => exact ⟨rfl, hc⟩
  | cons a rest ih =>
      obtain ⟨hreleased, hstate⟩ := ih (c := c.call env a) (call_notRequest hc a)
      exact ⟨hreleased.trans (call_released (.inr hc)), hstate⟩

end Conn

-- ---- where the bytes are ----

-- The messages of the stream so far and what is left in the buffer, while the connection is served here.
structure Keeping (env : Env) (passed : Msg → Prop) (stream : Bytes) (msgs : List (Bytes × Msg))
    (c : Conn) : Prop where
  whole : ∀ q ∈ msgs, q.2.Whole q.1 ∧ passed q.2
  bytes : stream = msgs.flatMap Prod.fst ++ c.recv
  told : dispatched c.log = msgs.filterMap (seen env)
  released : c.released = false

-- The buffer goes along, with the request that asks for it at its head.
structure Handed (env : Env) (passed : Msg → Prop) (stream : Bytes) (msgs : List (Bytes × Msg)) (m : Msg)
    (c : Conn) : Prop where
  whole : ∀ q ∈ msgs, q.2.Whole q.1 ∧ passed q.2
  bytes : stream = msgs.flatMap Prod.fst ++ c.recv
  head : parse c.recv = .complete m
  upgrade : m.upgrade = true
  told : dispatched c.log = msgs.filterMap (seen env) ++ [m.view c.recv]
  released : c.released = true

-- Between callbacks. A connection that closes may have thrown bytes away.
def Placed (env : Env) (passed : Msg → Prop) (stream : Bytes) (c : Conn) : Prop :=
  (∃ msgs, Keeping env passed stream msgs c ∧ c.state ≠ .request) ∨
    (∃ msgs m, Handed env passed stream msgs m c) ∨ c.dying = true ∧ c.released = false

section

variable {env : Env} {passed : Msg → Prop} {stream : Bytes} {msgs : List (Bytes × Msg)} {c c' : Conn}

theorem Keeping.quiet (h : Keeping env passed stream msgs c) (hq : Quiet Event.dispatched c c')
    (hreleased : c'.released = c.released) : Keeping env passed stream msgs c' where
  whole := h.whole
  bytes := by rw [hq.recv, h.bytes]
  told := hq.view.trans h.told
  released := hreleased.trans h.released

theorem Handed.quiet {m : Msg} (h : Handed env passed stream msgs m c) (hq : Quiet Event.dispatched c c')
    (hreleased : c'.released = c.released) : Handed env passed stream msgs m c' where
  whole := h.whole
  bytes := by rw [hq.recv, h.bytes]
  head := by rw [hq.recv, h.head]
  upgrade := h.upgrade
  told := by
    rw [hq.recv, dispatched, hq.view]
    exact h.told
  released := hreleased.trans h.released

theorem Keeping.still (h : Keeping env passed stream msgs c) (hq : Quiet Event.dispatched c c')
    (hreleased : c'.released = c.released) (hstate : c'.state ≠ .request) : Placed env passed stream c' :=
  .inl ⟨msgs, h.quiet hq hreleased, hstate⟩

theorem Keeping.ended (h : Keeping env passed stream msgs c) (hreleased : c'.released = c.released)
    (hd : c'.dying = true) : Placed env passed stream c' :=
  .inr (.inr ⟨hd, hreleased.trans h.released⟩)

theorem orderly_hosts (env : Env) : Hosts env Orderly where
  call := fun a h => h.call a
  onRequest := fun hstate _ _ _ h => (h.begin hstate _).level (.emit _ rfl)
  onUpgrade := fun hstate _ _ _ h => (h.begin hstate _).level (.emit _ rfl)
  unheard := fun hstate _ _ _ h => h.begin hstate _
  declined := fun hstate _ _ _ h => (h.begin hstate _).internal 400 true
  internal := fun status _ h => h.internal status true
  settled := fun {c} hstate h => by
    have hreleased := h.notReleased fun hs => by cases hs.symm.trans hstate
    have hset : Orderly (c.stateSet (if c.wrote then .responding else .awaitResp)) :=
      ⟨fun _ => h.request (.inl hstate), fun hr => absurd (hr.symm.trans hreleased) (by decide)⟩
    exact hset.level (.idleReset env _)
  recv := fun _ h => h.level (.still rfl rfl rfl rfl rfl)
  reset := fun _ h => h.level (.idleReset env _)
  post := fun h => h.level (.post env _ .process)
  closeGraceful := fun h => h.closeGraceful

theorem Orderly.gone (h : Orderly c) (hreleased : c.released = true) : c.dying = true := by
  rw [Conn.dying, h.released hreleased]
  rfl

-- ---- a message is dispatched ----

theorem view_take {buf : Bytes} {m : Msg} (h : parse buf = .complete m) :
    m.view buf = m.view (buf.take m.consumed) := by
  have happend := Msg.view_append (parse_take_consumed h) (buf.drop m.consumed)
  rwa [List.take_append_drop] at happend

theorem dispatch_told (c : Conn) {m : Msg} (hparse : parse c.recv = .complete m) :
    dispatched ((c.begin m).dispatch env m).2.log =
      dispatched c.log ++ (seen env (c.recv.take m.consumed, m)).toList := by
  have hbegin : dispatched (c.begin m).log = dispatched c.log :=
    (Quiet.event rfl rfl rfl : Quiet Event.dispatched c (c.begin m)).view
  have hcalled : ∀ (e : Event) (script : List Api), e.dispatched = some (m.view c.recv) →
      dispatched (((c.begin m).emit e).calls env script).log =
        dispatched c.log ++ [m.view (c.recv.take m.consumed)] := by
    intro e script he
    rw [← view_take hparse, dispatched, (Quiet.calls dispatched_untold env ((c.begin m).emit e) script).view]
    show dispatched ((c.begin m).log ++ [e]) = _
    rw [dispatched_append, hbegin]
    congr 1
    rw [dispatched, List.filterMap_cons_some he, List.filterMap_nil]
  unfold Conn.dispatch seen
  cases hup : m.upgrade with
  | true =>
      cases hcb : env.onUpgrade with
      | some cb => exact hcalled (.onUpgrade (m.view c.recv)) _ rfl
      | none =>
          have hquiet := Quiet.respondInternal dispatched_untold env (c.begin m) 400 true
          exact (hquiet.view.trans hbegin).trans (List.append_nil _).symm
  | false =>
      cases hcb : env.onRequest with
      | some cb => exact hcalled (.onRequest (m.view c.recv)) _ rfl
      | none => exact hbegin.trans (List.append_nil _).symm

theorem dispatch_plain (hy : Yields env passed) {m : Msg} (hup : m.upgrade = false) (c : Conn) :
    (c.dispatch env m).2.released = c.released := by
  unfold Conn.dispatch
  rw [if_neg (by simp [hup])]
  cases hcb : env.onRequest with
  | none => rfl
  | some cb => exact Conn.calls_released (hy.onRequest cb hcb _) _

theorem dispatch_taken (hy : Yields env passed) {m : Msg} (hstate : c.state = .request)
    (hreleased : c.released = false) (htaken : (c.dispatch env m).1 = true) :
    (c.dispatch env m).2.released = true := by
  unfold Conn.dispatch at htaken ⊢
  split at htaken
  · rename_i hup
    rw [if_pos hup]
    cases hcb : env.onUpgrade with
    | none =>
        rw [hcb] at htaken
        cases htaken
    | some cb =>
        rw [hcb] at htaken
        exact hy.taken cb hcb (c.emit (.onUpgrade (m.view c.recv))) hstate hreleased htaken
  · cases hcb : env.onRequest with
    | none =>
        rw [hcb] at htaken
        cases htaken
    | some cb =>
        rw [hcb] at htaken
        cases htaken

theorem dispatch_heard {m : Msg} (hup : m.upgrade = true) (hreleased : c.released = false)
    (hgone : (c.dispatch env m).2.released = true) : env.onUpgrade.isSome = true := by
  cases hcb : env.onUpgrade with
  | some cb => rfl
  | none =>
      unfold Conn.dispatch at hgone
      rw [if_pos hup, hcb] at hgone
      have hkept := Conn.respondInternal_released env c 400 true
      exact absurd (hgone.symm.trans (hkept.trans hreleased)) (by decide)

theorem afterCallback_kept (env : Env) (c : Conn) (consumed : Nat) :
    Quiet Event.dispatched { c with recv := c.recv.drop consumed } (c.requestAfterCallback env consumed) ∧
      (c.requestAfterCallback env consumed).released = c.released ∧
      (c.requestAfterCallback env consumed).state ≠ .request := by
  have hreset : ∀ d : Conn, Quiet Event.dispatched d (d.idleReset env) ∧
      (d.idleReset env).released = d.released :=
    fun d => ⟨.idleReset dispatched_unseen env d, (Level.idleReset env d).released⟩
  unfold Conn.requestAfterCallback
  dsimp only
  split
  · rename_i hstate
    refine ⟨.refl _, rfl, ?_⟩
    intro hreq
    rw [Conn.dying, hreq] at hstate
    simp at hstate
  split
  · obtain ⟨hquiet, hreleased⟩ := hreset
      ({ c with recv := c.recv.drop consumed }.stateSet (if c.wrote then .responding else .awaitResp))
    refine ⟨(Quiet.stateSet dispatched_unseen _ _).trans hquiet, hreleased, ?_⟩
    rw [idleReset_state]
    show (if c.wrote then ConnState.responding else .awaitResp) ≠ .request
    split <;> decide
  · rename_i hstate
    obtain ⟨hquiet, hreleased⟩ := hreset { c with recv := c.recv.drop consumed }
    refine ⟨hquiet, hreleased, ?_⟩
    rw [idleReset_state]
    exact hstate

-- A message that leaves the connection where it is.
theorem Keeping.next (h : Keeping env passed stream msgs c) {m : Msg} (hparse : parse c.recv = .complete m)
    (hpassed : passed m) {d : Conn} (hrecv : d.recv = c.recv)
    (htold : dispatched d.log = dispatched c.log ++ (seen env (c.recv.take m.consumed, m)).toList)
    (hreleased : d.released = false) :
    Keeping env passed stream (msgs ++ [(c.recv.take m.consumed, m)])
      (d.requestAfterCallback env m.consumed) := by
  obtain ⟨hquiet, hkept, -⟩ := afterCallback_kept env d m.consumed
  have hwhole : m.Whole (c.recv.take m.consumed) := by
    refine ⟨parse_take_consumed hparse, ?_⟩
    rw [List.length_take]
    exact (Nat.min_eq_left (parse_consumed_le hparse)).symm
  refine ⟨?_, ?_, ?_, hkept.trans hreleased⟩
  · intro q hq
    rcases List.mem_append.mp hq with hq | hq
    · exact h.whole q hq
    · rw [List.mem_singleton.mp hq]
      exact ⟨hwhole, hpassed⟩
  · rw [hquiet.recv, h.bytes, List.flatMap_append, List.flatMap_singleton, List.append_assoc]
    show _ = _ ++ (c.recv.take m.consumed ++ d.recv.drop m.consumed)
    rw [hrecv, List.take_append_drop]
  · rw [dispatched, hquiet.view, List.filterMap_append, ← h.told]
    refine htold.trans ?_
    cases hseen : seen env (c.recv.take m.consumed, m) <;> simp [hseen]

theorem Keeping.httpProcess (hy : Yields env passed) (budget : Nat) (h : Keeping env passed stream msgs c)
    (ho : Orderly c) (hstate : c.state ≠ .request) : Placed env passed stream (c.httpProcess env budget) := by
  induction budget generalizing c msgs with
  | zero =>
      unfold Conn.httpProcess
      split
      · exact .inl ⟨msgs, h, hstate⟩
      dsimp only
      split
      · exact h.still (.post dispatched_unseen env c .process) rfl hstate
      · exact h.ended (Conn.closeGraceful_released _) (dying_closeGraceful _)
  | succ budget ih =>
      unfold Conn.httpProcess
      split
      · exact .inl ⟨msgs, h, hstate⟩
      rename_i hready
      have hparsing : c.state = .parsing := by
        by_contra hne
        exact hready (.inr (.inr hne))
      have hinternal : ∀ status : Int, Placed env passed stream (c.respondInternal env status true) :=
        fun status => h.still (.respondInternal dispatched_untold env c status true)
          (Conn.respondInternal_released env c status true) (Conn.respondInternal_notRequest hstate status true)
      dsimp only
      split
      · exact hinternal 400
      · split
        · exact hinternal 413
        · exact .inl ⟨msgs, h, hstate⟩
      · rename_i m hparse
        have hbegun : (c.begin m).released = false := h.released
        have hrecv : ((c.begin m).dispatch env m).2.recv = c.recv := Sound.dispatch_recv (c.begin m) m
        have htold : dispatched ((c.begin m).dispatch env m).2.log = _ := dispatch_told c hparse
        have horder := (orderly_hosts env).dispatch hparsing hparse ho
        have htaken := dispatch_taken (m := m) hy (c := c.begin m) rfl hbegun
        by_cases hgone : ((c.begin m).dispatch env m).2.released = true
        · have hup : m.upgrade = true := by
            by_contra hplain
            have hkept := dispatch_plain hy (eq_false_of_ne_true hplain) (c.begin m)
            exact absurd (hgone.symm.trans (hkept.trans hbegun)) (by decide)
          have hsome := dispatch_heard hup hbegun hgone
          have hhanded : Handed env passed stream msgs m ((c.begin m).dispatch env m).2 := by
            refine ⟨h.whole, by rw [hrecv, h.bytes], by rw [hrecv, hparse], hup, ?_, hgone⟩
            obtain ⟨cb, hcb⟩ := Option.isSome_iff_exists.mp hsome
            rw [htold, h.told, hrecv, view_take hparse, seen, if_pos hup, hcb]
            rfl
          have hplaced : Placed env passed stream ((c.begin m).dispatch env m).2 :=
            .inr (.inl ⟨msgs, m, hhanded⟩)
          split
          · exact hplaced
          · rw [if_pos (horder.gone hgone)]
            exact hplaced
        · have hhere := eq_false_of_ne_true hgone
          rw [if_neg fun h => hgone (htaken h)]
          split
          · exact .inr (.inr ⟨‹_›, hhere⟩)
          have hpassed : passed m := by
            cases hup : m.upgrade with
            | false => exact hy.plain m hup
            | true => exact hy.declined (c.begin m) m hup rfl hbegun hhere
          have hnext := h.next hparse hpassed hrecv htold hhere
          obtain ⟨-, -, hrest⟩ := afterCallback_kept env ((c.begin m).dispatch env m).2 m.consumed
          split
          · exact ih hnext ((orderly_hosts env).afterCallback m.consumed horder) hrest
          · exact .inl ⟨_, hnext, hrest⟩

-- ---- a run ----

theorem Placed.cases (h : Placed env passed stream c) (ho : Orderly c) :
    (∃ msgs, Keeping env passed stream msgs c ∧ c.state ≠ .request) ∨ c.dying = true := by
  rcases h with h | ⟨msgs, m, h⟩ | ⟨h, -⟩
  · exact .inl h
  · exact .inr (ho.gone h.released)
  · exact .inr h

theorem httpProcess_dying (budget : Nat) (hd : c.dying = true) : c.httpProcess env budget = c := by
  unfold Conn.httpProcess
  exact if_pos (.inr (.inl hd))

theorem Placed.httpProcess (hy : Yields env passed) (h : Placed env passed stream c) (ho : Orderly c)
    (budget : Nat) : Placed env passed stream (c.httpProcess env budget) := by
  rcases h.cases ho with ⟨msgs, hk, hstate⟩ | hd
  · exact hk.httpProcess hy budget ho hstate
  · rwa [httpProcess_dying budget hd]

theorem Placed.overflowProcess (hy : Yields env passed) (len k : Nat) (h : Placed env passed stream c)
    (ho : Orderly c) : Placed env passed stream (c.overflowProcess env len k) := by
  induction k generalizing c with
  | zero => exact h
  | succ k ih =>
      unfold Conn.overflowProcess
      split
      · exact ih (h.httpProcess hy ho _) ((orderly_hosts env).httpProcess _ ho)
      · exact h

theorem Placed.receive (hy : Yields env passed) (h : Placed env passed stream c) (ho : Orderly c)
    (hd : c.dying = false) (data : Bytes) : Placed env passed (stream ++ data) (c.receive env data) := by
  obtain ⟨msgs, hk, hstate⟩ := (h.cases ho).resolve_right (by simp [hd])
  have hmore : Keeping env passed (stream ++ data) msgs { c with recv := c.recv ++ data } :=
    ⟨hk.whole, by rw [hk.bytes, List.append_assoc], hk.told, hk.released⟩
  have hreset := hmore.quiet (.idleReset dispatched_unseen env _) (Level.idleReset env _).released
  have horder : Orderly ({ c with recv := c.recv ++ data }.idleReset env) :=
    (orderly_hosts env).reset hd ((orderly_hosts env).recv _ ho)
  have hrest : ({ c with recv := c.recv ++ data }.idleReset env).state ≠ .request := by
    rw [idleReset_state]
    exact hstate
  unfold Conn.receive
  dsimp only
  split
  · exact hreset.httpProcess hy _ horder hrest
  · exact .inl ⟨msgs, hreset, hrest⟩

-- The connection is handed over while http_process makes room for a push, and the push is lost.
def Crowded (env : Env) (c : Conn) (data : Bytes) : Prop :=
  data.length > c.recvCap - c.recv.length ∧
    (c.overflowProcess env data.length overflowProcessLimit).released = true

instance (env : Env) (c : Conn) (data : Bytes) : Decidable (Crowded env c data) :=
  inferInstanceAs (Decidable (_ ∧ _))

theorem Placed.onData (hy : Yields env passed) (h : Placed env passed stream c) (ho : Orderly c)
    (hreleased : c.released = false) (data : Bytes) :
    (¬ Crowded env c data → Placed env passed (stream ++ data) (c.onData env data)) ∧
      (Crowded env c data → ∃ msgs m, Handed env passed stream msgs m (c.onData env data)) := by
  have hclosed : ∀ d : Conn, d.released = false → Placed env passed (stream ++ data) d.closeGraceful :=
    fun d hd => .inr (.inr ⟨dying_closeGraceful d, (Conn.closeGraceful_released d).trans hd⟩)
  have hroom := h.overflowProcess hy data.length overflowProcessLimit ho
  have horder := (orderly_hosts env).overflowProcess data.length overflowProcessLimit ho
  have hsame : ¬ (c.dying = false ∧ c.state = .parsing) →
      c.overflowProcess env data.length overflowProcessLimit = c := by
    intro hstop
    rw [overflowProcessLimit, Conn.overflowProcess, if_neg]
    rintro ⟨hd, hp, -⟩
    exact hstop ⟨by simpa using hd, hp⟩
  have hidle : ¬ (c.dying = false ∧ c.state = .parsing) → ¬ Crowded env c data := by
    rintro hstop ⟨-, hgone⟩
    rw [hsame hstop, hreleased] at hgone
    cases hgone
  unfold Conn.onData
  split
  · rename_i hd
    exact ⟨fun _ => .inr (.inr ⟨hd, hreleased⟩), fun hc => absurd hc (hidle (by simp [hd]))⟩
  rename_i hd
  split
  · rename_i htight
    split
    · dsimp only
      by_cases hgone : (c.overflowProcess env data.length overflowProcessLimit).released = true
      · refine ⟨fun hc => absurd ⟨htight, hgone⟩ hc, fun _ => ?_⟩
        generalize c.overflowProcess env data.length overflowProcessLimit = d at hroom horder hgone ⊢
        have hdying := horder.gone hgone
        have hsame : d.closeGraceful = d := if_pos hdying
        rw [if_neg (by simp [hdying]), hsame]
        rcases hroom with ⟨msgs, hk, -⟩ | hh | ⟨-, hr⟩
        · cases hgone.symm.trans hk.released
        · exact hh
        · cases hgone.symm.trans hr
      · refine ⟨fun _ => ?_, fun hc => absurd hc.2 hgone⟩
        generalize c.overflowProcess env data.length overflowProcessLimit = d at hroom horder hgone ⊢
        split
        · rename_i hfit
          exact hroom.receive hy horder (by simpa using hfit.1) data
        · exact hclosed d (eq_false_of_ne_true hgone)
    · rename_i hparsing
      exact ⟨fun _ => hclosed c hreleased, fun hc => absurd hc (hidle fun h => hparsing h.2)⟩
  · rename_i hfits
    exact ⟨fun _ => h.receive hy ho (by simpa using hd) data, fun hc => absurd hc.1 hfits⟩

theorem Placed.quiet (h : Placed env passed stream c) (hq : Quiet Event.dispatched c c')
    (hreleased : c'.released = c.released) (hstate : c.state ≠ .request → c'.state ≠ .request)
    (hd : c.dying = true → c'.dying = true) : Placed env passed stream c' := by
  rcases h with ⟨msgs, h, hrest⟩ | ⟨msgs, m, h⟩ | ⟨hdying, hr⟩
  · exact h.still hq hreleased (hstate hrest)
  · exact .inr (.inl ⟨msgs, m, h.quiet hq hreleased⟩)
  · exact .inr (.inr ⟨hd hdying, hreleased.trans hr⟩)

theorem Placed.terminate (h : Placed env passed stream c) : Placed env passed stream (c.terminate env) := by
  have hstate := @Conn.terminate_state env c
  refine h.quiet (.terminate dispatched_unseen env c) (Level.terminate env c).released ?_ ?_
  · intro hne
    rcases hstate with h | h <;> rw [h]
    · exact hne
    · decide
  · intro hd
    rcases hstate with h | h <;> rw [Conn.dying, h]
    · exact hd
    · rfl

theorem Placed.onOpen (h : Placed env passed stream c) (hnew : c.state = .new) :
    Placed env passed stream (c.onOpen env) := by
  have hafter : ∀ d : Conn, Placed env passed stream d →
      Placed env passed stream (if d.dying then d.idleReset env else (d.stateSet .parsing).idleReset env) := by
    intro d hd
    have hreset : ∀ e : Conn, Placed env passed stream e → Placed env passed stream (e.idleReset env) :=
      fun e he => he.quiet (.idleReset dispatched_unseen env e) (Level.idleReset env e).released
        (by rw [idleReset_state]; exact id) (Sound.dying_of_state (idleReset_state env e))
    split
    · exact hreset d hd
    · rename_i hdying
      exact hreset _ (hd.quiet (.stateSet dispatched_unseen d .parsing) rfl (fun _ => by simp [Conn.stateSet])
        fun h => absurd h hdying)
  have hne : c.state ≠ .request := by simp [hnew]
  unfold Conn.onOpen
  split
  · exact h
  cases env.onAccept with
  | none => exact hafter c h
  | some cb =>
      refine hafter _ ?_
      obtain ⟨hreleased, hstate⟩ := @Conn.calls_aside env (c.emit .onAccept)
        (cb (c.emit .onAccept).log) hne
      have hquiet : Quiet Event.dispatched c (c.emit .onAccept) := .event rfl rfl rfl
      refine h.quiet (hquiet.trans (.calls dispatched_untold env _ _)) hreleased (fun _ => hstate) fun hd => ?_
      rw [Conn.dying, hnew] at hd
      cases hd

theorem Placed.call (h : Placed env passed stream c) (ho : Orderly c) (a : Api) :
    Placed env passed stream (c.call env a) := by
  have hstate : c.state ≠ .request := by
    rcases h.cases ho with ⟨msgs, -, hstate⟩ | hd
    · exact hstate
    · intro hreq
      rw [Conn.dying, hreq] at hd
      cases hd
  exact h.quiet (.call dispatched_untold env c a) (Conn.call_released (.inr hstate))
    (fun _ => Conn.call_notRequest hstate a) (dying_call env c a)

theorem Placed.onIdleTimeout (h : Placed env passed stream c) : Placed env passed stream (c.onIdleTimeout env) := by
  have hstop := h.quiet (.idleStop dispatched_unseen c) (Level.idleStop c).released
    (by rw [idleStop_state]; exact id) (Sound.dying_of_state (idleStop_state c))
  unfold Conn.onIdleTimeout
  dsimp only
  split
  · exact hstop.terminate
  · exact hstop

theorem Placed.processPost (hy : Yields env passed) (h : Placed env passed stream c) (ho : Orderly c) :
    Placed env passed stream (c.processPost env) := by
  unfold Conn.processPost
  split
  · exact h
  split
  · exact h.httpProcess hy ho _
  · exact h

-- The push that a step loses.
def Step.lost (env : Env) (c : Conn) : Step → Bytes
  | .data d => if Crowded env c d then Step.received c (.data d) else []
  | _ => []

-- After the bytes `stream`, of which `lost` are lost.
def Stands (env : Env) (passed : Msg → Prop) (stream lost : Bytes) (c : Conn) : Prop :=
  Placed env passed stream c ∧ lost = [] ∨
    ∃ kept msgs m, Handed env passed kept msgs m c ∧ stream = kept ++ lost

theorem Placed.stands (h : Placed env passed stream c) : Stands env passed (stream ++ []) ([] ++ []) c :=
  .inl ⟨by rwa [List.append_nil], rfl⟩

theorem Placed.step (hy : Yields env passed) (h : Placed env passed stream c) (ho : Orderly c) (s : Step) :
    Stands env passed (stream ++ s.received c) ([] ++ s.lost env c) (c.step env s) := by
  have hclosed : Placed env passed stream (c.onClose env) := by
    unfold Conn.onClose
    split
    · exact h
    · exact h.terminate
  cases s with
  | opened =>
      simp only [Conn.step, Step.received, Step.lost]
      split
      · rename_i hnew
        exact (h.onOpen (by simpa using (Bool.and_eq_true_iff.mp hnew).2)).stands
      · exact h.stands
  | data d =>
      simp only [Conn.step, Step.received, Step.lost]
      split
      · rename_i hopen
        have hreleased : c.released = false := by
          simp only [Bool.and_eq_true, Bool.not_eq_true'] at hopen
          exact hopen.1.2
        obtain ⟨hfits, hcrowded⟩ := h.onData hy ho hreleased d
        split
        · rename_i hc
          obtain ⟨msgs, m, hh⟩ := hcrowded hc
          exact .inr ⟨stream, msgs, m, hh, rfl⟩
        · rename_i hc
          exact .inl ⟨hfits hc, rfl⟩
      · rw [ite_self]
        exact h.stands
  | eof =>
      simp only [Conn.step, Step.received, Step.lost]
      split
      · exact hclosed.stands
      · exact h.stands
  | error =>
      simp only [Conn.step, Step.received, Step.lost]
      split
      · exact hclosed.stands
      · exact h.stands
  | idleTimeout =>
      simp only [Conn.step, Step.received, Step.lost]
      split
      · exact h.onIdleTimeout.stands
      · exact h.stands
  | post =>
      simp only [Conn.step, Step.received, Step.lost]
      split
      · exact h.stands
      · rename_i rest _
        have hpopped : Placed env passed stream { c with posts := rest } := h.quiet ⟨rfl, rfl⟩ rfl id id
        exact (hpopped.processPost hy (ho.level (.still rfl rfl rfl rfl rfl))).stands
      · rename_i rest _
        have hfreed : Quiet Event.dispatched c ({ c with posts := rest } : Conn).cleanup := .event rfl rfl rfl
        exact (h.quiet hfreed rfl id id).stands
  | call a =>
      simp only [Conn.step, Step.received, Step.lost]
      split
      · exact h.stands
      · exact (h.call ho a).stands

-- What has been handed over stays as it is.
theorem Handed.step {m : Msg} (h : Handed env passed stream msgs m c) (ho : Orderly c) (s : Step) :
    Handed env passed stream msgs m (c.step env s) ∧ s.received c = [] ∧ s.lost env c = [] := by
  have hstate := ho.released h.released
  have hopen : (c.stream && !c.released) = false := by simp [h.released]
  have hreceived : s.received c = [] := by
    cases s with
    | data d => simp [Step.received, hopen]
    | _ => rfl
  refine ⟨?_, hreceived, ?_⟩
  · have hdying := ho.gone h.released
    cases s with
    | opened => simpa [Conn.step, hstate] using h
    | data d => simpa [Conn.step, hopen] using h
    | eof => simpa [Conn.step, hopen] using h
    | error => simpa [Conn.step, hopen] using h
    | idleTimeout =>
        have hstop := h.quiet (.idleStop dispatched_unseen c) (Level.idleStop c).released
        have hkept : c.onIdleTimeout env = c.idleStop := by
          unfold Conn.onIdleTimeout
          simp [idleStop_state, hstate]
        simp only [Conn.step]
        split
        · rwa [hkept]
        · exact h
    | post =>
        simp only [Conn.step]
        split
        · exact h
        · rename_i rest _
          have hpopped : Handed env passed stream msgs m { c with posts := rest } := h.quiet ⟨rfl, rfl⟩ rfl
          have hstay : { c with posts := rest }.processPost env = { c with posts := rest } := if_pos hdying
          rwa [hstay]
        · rename_i rest _
          have hfreed : Quiet Event.dispatched c ({ c with posts := rest } : Conn).cleanup := .event rfl rfl rfl
          exact h.quiet hfreed rfl
    | call a =>
        simp only [Conn.step]
        split
        · exact h
        · exact h.quiet (.call dispatched_untold env c a) (Conn.call_released (.inr (by simp [hstate])))
  · cases s with
    | data d =>
        show (if Crowded env c d then Step.received c (.data d) else []) = []
        rw [hreceived, ite_self]
    | _ => rfl

-- All pushes that a run loses; there is one at most.
def lost (env : Env) : Conn → List Step → Bytes
  | _, [] => []
  | c, s :: rest => s.lost env c ++ lost env (c.step env s) rest

theorem Stands.run {gone : Bytes} (hy : Yields env passed) (steps : List Step) {cap : Nat}
    (hr : Reached env cap c) (h : Stands env passed stream gone c) :
    Stands env passed (stream ++ received env c steps) (gone ++ lost env c steps) (c.run env steps) := by
  unfold Conn.run
  induction steps generalizing c stream gone with
  | nil => simpa [received, lost] using h
  | cons s rest ih =>
      have hstep : Stands env passed (stream ++ s.received c) (gone ++ s.lost env c) (c.step env s) := by
        rcases h with ⟨h, rfl⟩ | ⟨kept, msgs, m, h, rfl⟩
        · exact h.step hy hr.orderly s
        · obtain ⟨hh, hreceived, hlost⟩ := h.step hr.orderly s
          rw [hreceived, hlost, List.append_nil, List.append_nil]
          exact .inr ⟨kept, msgs, m, hh, rfl⟩
      have hnext := ih (hr.step s) hstep
      rwa [List.append_assoc, List.append_assoc] at hnext

end

-- A connection that is handed over has been told of the messages in front of the upgrade request, each
-- once and in order. The rest of the stream goes along, the request at its head, but for a push for
-- which there was no room until http_process had dispatched the request.
theorem handed_over_whole (env : Env) (passed : Msg → Prop) (hy : Yields env passed) (cap : Nat)
    (steps : List Step) (hreleased : ((Conn.accepted cap).run env steps).released = true) :
    let c := (Conn.accepted cap).run env steps
    ∃ (msgs : List (Bytes × Msg)) (m : Msg), (∀ q ∈ msgs, q.2.Whole q.1 ∧ passed q.2) ∧
      received env (Conn.accepted cap) steps =
        msgs.flatMap Prod.fst ++ c.recv ++ lost env (Conn.accepted cap) steps ∧
      parse c.recv = .complete m ∧ m.upgrade = true ∧
      dispatched c.log = msgs.filterMap (seen env) ++ [m.view c.recv] := by
  intro c
  have hstart : Placed env passed [] (Conn.accepted cap) :=
    .inl ⟨[], ⟨by simp, rfl, rfl, rfl⟩, by simp [Conn.accepted]⟩
  have hrun : Stands env passed (received env (Conn.accepted cap) steps) (lost env (Conn.accepted cap) steps) c :=
    Stands.run hy steps ⟨[], .accepted⟩ (.inl ⟨hstart, rfl⟩)
  obtain ⟨kept, msgs, m, h, hkept⟩ : ∃ kept msgs m, Handed env passed kept msgs m c ∧
      received env (Conn.accepted cap) steps = kept ++ lost env (Conn.accepted cap) steps := by
    rcases hrun with ⟨hplaced, hlost⟩ | h
    · rcases hplaced with ⟨msgs, h, -⟩ | ⟨msgs, m, h⟩ | ⟨-, h⟩
      · cases hreleased.symm.trans h.released
      · exact ⟨_, msgs, m, h, by rw [hlost, List.append_nil]⟩
      · cases hreleased.symm.trans h
    · exact h
  exact ⟨msgs, m, h.whole, by rw [hkept, h.bytes], h.head, h.upgrade, h.told⟩

-- on_upgrade calls sevent_ws_upgrade, and on_request responds.
def upgrading : Env :=
  { answering okResponse with onUpgrade := some fun _ => ([.release], true) }

theorem upgrading_yields : Yields upgrading fun m => m.upgrade = false where
  onRequest := by
    rintro cb ⟨⟩ log
    simp
  taken := by
    rintro cb ⟨⟩ c hstate hreleased -
    have hcalled : (c.emit (.called .release)).released = false := hreleased
    simp [Conn.calls, Conn.call, Conn.release, Conn.emit, hstate, hreleased, (Level.idleStop _).released,
      Conn.stateSet]
  plain := fun _ h => h
  declined := by
    intro c m hup hstate hreleased hkept
    unfold Conn.dispatch at hkept
    rw [if_pos hup] at hkept
    simp [upgrading, Conn.calls, Conn.call, Conn.release, Conn.emit, hstate, hreleased,
      (Level.idleStop _).released, Conn.stateSet] at hkept

def upgradeRequest : Bytes := ascii "GET /a HTTP/1.1\r\nConnection: Upgrade\r\nUpgrade: websocket\r\n\r\n"

-- A request, the upgrade request and three bytes behind it, in two pushes.
def overTwoPushes : List Step :=
  let stream := ascii "GET / HTTP/1.1\r\n\r\n" ++ upgradeRequest ++ [1, 2, 3]
  [.opened, .data (stream.take 30), .data (stream.drop 30)]

theorem handed_over_whole_two_pushes :
    ∃ (msgs : List (Bytes × Msg)) (m : Msg), (∀ q ∈ msgs, q.2.Whole q.1 ∧ q.2.upgrade = false) ∧
      ascii "GET / HTTP/1.1\r\n\r\n" ++ upgradeRequest ++ [1, 2, 3] =
        msgs.flatMap Prod.fst ++ (upgradeRequest ++ [1, 2, 3]) ∧
      parse (upgradeRequest ++ [1, 2, 3]) = .complete m ∧ m.upgrade = true := by
  obtain ⟨hreleased, hrecv, hlost, hreceived⟩ :
      ((Conn.accepted 256).run upgrading overTwoPushes).released = true ∧
      ((Conn.accepted 256).run upgrading overTwoPushes).recv = upgradeRequest ++ [1, 2, 3] ∧
      lost upgrading (Conn.accepted 256) overTwoPushes = [] ∧
      received upgrading (Conn.accepted 256) overTwoPushes =
        ascii "GET / HTTP/1.1\r\n\r\n" ++ upgradeRequest ++ [1, 2, 3] := by decide +kernel
  obtain ⟨msgs, m, hwhole, hbytes, hhead, hup, -⟩ :=
    handed_over_whole upgrading _ upgrading_yields 256 overTwoPushes hreleased
  rw [hreceived, hrecv, hlost, List.append_nil] at hbytes
  rw [hrecv] at hhead
  exact ⟨msgs, m, hwhole, hbytes, hhead, hup⟩

-- The first request is answered later. Before the posted http_process runs, a push comes that does not
-- fit beside the upgrade request.
example :
    let env : Env := { upgrading with onRequest := some fun _ => [] }
    let steps : List Step := [.opened, .data (ascii "GET / HTTP/1.1\r\n\r\n" ++ upgradeRequest),
      .call (.respond okResponse), .data (List.replicate 50 7)]
    ((Conn.accepted 100).run env steps).released = true ∧
      lost env (Conn.accepted 100) steps = List.replicate 50 7 := by decide +kernel

end Sevent.Http
