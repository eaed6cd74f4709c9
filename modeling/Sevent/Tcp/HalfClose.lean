import Sevent.Tcp.WriteQueue

-- Half-closing a connection (sevent_tcp_conn_shutdown with SEVENT_SHUT_WR): the FIN follows what the
-- writes before it have been given, as long as no write comes in between.
namespace Sevent.Tcp

-- The FIN.
def Event.isFin : Event → Bool
  | .shutdown true _ => true
  | _ => false

def NoFin (log : List Event) : Prop := ∀ e ∈ log, e.isFin = false

-- A write that has returned 0 had nothing to write.
def Event.Refusing : Event → Prop
  | .wrote data rc => 0 < data.len → rc ≠ 0
  | _ => True

-- What happens beside the writing.
def Event.quiet : Event → Bool
  | .send _ _ | .shutdown true _ | .wrote _ _ => false
  | _ => true

-- What a connection that is closed for writing still does.
structure Event.Late (e : Event) : Prop where
  noFin : e.isFin = false
  sent : e.sentBytes = []
  refusing : e.Refusing

-- The socket: a send takes some bytes or none, and fails after the FIN.
structure Env.Kernel (env : Env) : Prop where
  send : ∀ log data, data ≠ [] → (env.send log data).Bounded data.length
  closed : ∀ log data, ¬ NoFin log → env.send log data = .failed

theorem Event.quiet_late {e : Event} (h : e.quiet = true) : e.Late ∧ e.acceptedBytes = [] := by
  cases e with
  | send data res => cases h
  | wrote data rc => cases h
  | shutdown wr rd =>
      cases wr with
      | true => cases h
      | false => exact ⟨⟨rfl, rfl, trivial⟩, rfl⟩
  | _ => exact ⟨⟨rfl, rfl, trivial⟩, rfl⟩

theorem NoFin.append {log l : List Event} (h : NoFin log) (hl : NoFin l) : NoFin (log ++ l) := by
  intro e he
  rcases List.mem_append.mp he with he | he
  · exact h e he
  · exact hl e he

theorem sent_nil {l : List Event} (h : ∀ e ∈ l, e.sentBytes = []) : sent l = [] :=
  List.flatMap_eq_nil_iff.mpr h

theorem accepted_nil {l : List Event} (h : ∀ e ∈ l, e.acceptedBytes = []) : accepted l = [] :=
  List.flatMap_eq_nil_iff.mpr h

namespace Conn

-- ---- what a function adds to the log ----

def Adds (P : Event → Prop) (c c' : Conn) : Prop := ∃ l, c'.log = c.log ++ l ∧ ∀ e ∈ l, P e

variable {P Q : Event → Prop} {a b c c' : Conn} {env : Env}

theorem Adds.refl (h : c'.log = c.log) : Adds P c c' := ⟨[], by rw [h, List.append_nil], fun _ he => absurd he List.not_mem_nil⟩

theorem Adds.emit (c : Conn) {e : Event} (he : P e) : Adds P c (c.emit e) :=
  ⟨[e], rfl, fun _ h => List.mem_singleton.mp h ▸ he⟩

theorem Adds.trans (h : Adds P a b) (h' : Adds P b c) : Adds P a c := by
  obtain ⟨l, hl, hP⟩ := h
  obtain ⟨l', hl', hP'⟩ := h'
  refine ⟨l ++ l', by rw [hl', hl, List.append_assoc], fun e he => ?_⟩
  rcases List.mem_append.mp he with he | he
  · exact hP e he
  · exact hP' e he

theorem Adds.mono (h : Adds P c c') (hPQ : ∀ e, P e → Q e) : Adds Q c c' := by
  obtain ⟨l, hl, hP⟩ := h
  exact ⟨l, hl, fun e he => hPQ e (hP e he)⟩

def Quiet (c c' : Conn) : Prop := Adds (fun e => e.quiet = true) c c'

theorem Quiet.late (h : Quiet c c') : Adds Event.Late c c' := h.mono fun _ he => (Event.quiet_late he).1

theorem Adds.noFin (h : Adds (fun e => e.isFin = false) c c') (hc : NoFin c.log) : NoFin c'.log := by
  obtain ⟨l, hl, hP⟩ := h
  rw [hl]
  exact hc.append hP

theorem Adds.sent (h : Adds (fun e => e.sentBytes = []) c c') : sent c'.log = sent c.log := by
  obtain ⟨l, hl, hP⟩ := h
  rw [hl, sent_append, sent_nil hP, List.append_nil]

theorem Quiet.accepted (h : Quiet c c') : accepted c'.log = accepted c.log := by
  obtain ⟨l, hl, hP⟩ := h
  rw [hl, accepted_append, accepted_nil fun e he => (Event.quiet_late (hP e he)).2, List.append_nil]

-- ---- what it leaves of the connection ----

def Live (c : Conn) : Prop := c.destroyed = false ∧ c.state = .opened

instance decidableLive (c : Conn) : Decidable (Live c) :=
  inferInstanceAs (Decidable (c.destroyed = false ∧ c.state = .opened))

-- Everything but the descriptor, the handle and the log.
structure SameQueue (c c' : Conn) : Prop where
  queue : c'.queue = c.queue
  nextAddr : c'.nextAddr = c.nextAddr
  state : c'.state = c.state
  destroyed : c'.destroyed = c.destroyed
  pending : c'.shutdownWrPending = c.shutdownWrPending

theorem SameQueue.refl (c : Conn) : SameQueue c c := ⟨rfl, rfl, rfl, rfl, rfl⟩

theorem SameQueue.live (h : SameQueue c c') : Live c' ↔ Live c := by
  unfold Live
  rw [h.destroyed, h.state]

theorem SameQueue.queued {l : List (Nat × WriteNode)} (h : SameQueue c c') (hq : Queued c l) : Queued c' l := by
  refine ⟨?_, ?_, hq.offset⟩
  · rw [h.queue]
    exact hq.holds
  · rw [h.queue, h.nextAddr]
    exact hq.fresh

-- It has gone on beside the writing, or the connection is over.
structure Beside (c c' : Conn) : Prop where
  quiet : Quiet c c'
  same : ¬ Live c' ∨ SameQueue c c'

theorem not_live (h : c.state = .idle) : ¬ Live c := by
  rintro ⟨-, ho⟩
  cases h.symm.trans ho

theorem live_iff : ¬ (c.destroyed = true ∨ c.state ≠ .opened) ↔ Live c := by
  unfold Live
  rw [not_or, not_not, Bool.not_eq_true]

theorem closeIo_quiet (c : Conn) : Quiet c c.closeIo := by
  unfold closeIo
  extract_lets c₁ c₂ c₃
  have hfirst : Quiet c c₂ := by
    simp only [c₂]
    split
    · exact .emit c rfl
    · exact .refl rfl
  split
  · exact hfirst.trans (.emit c₂ rfl)
  · exact hfirst

theorem teardown_beside (err : Int) (c : Conn) : Quiet c (teardown err c) ∧ ¬ Live (teardown err c) := by
  unfold teardown
  split
  · rename_i h
    refine ⟨.refl rfl, fun hlive => ?_⟩
    rcases h with h | h
    · cases h.symm.trans hlive.1
    · exact not_live h hlive
  · have hquiet : Quiet c { c.closeIo.queueClear with state := .idle } := closeIo_quiet c
    dsimp only
    split
    · exact ⟨hquiet.trans (.emit _ rfl), not_live rfl⟩
    · exact ⟨hquiet.trans (.emit _ rfl), not_live rfl⟩

theorem updateIo_beside (env : Env) (c : Conn) : Beside c (updateIo env c) := by
  unfold updateIo
  extract_lets hd c₁ ok c₂ c₃
  have hfirst : Quiet c c₁ ∧ SameQueue c c₁ := by
    simp only [c₁]
    split
    · exact ⟨.emit c rfl, ⟨rfl, rfl, rfl, rfl, rfl⟩⟩
    · exact ⟨.refl rfl, .refl c⟩
  have hquiet : Quiet c c₃ := hfirst.1.trans (.emit c₁ rfl)
  have hsame : SameQueue c c₃ :=
    ⟨hfirst.2.queue, hfirst.2.nextAddr, hfirst.2.state, hfirst.2.destroyed, hfirst.2.pending⟩
  split
  · exact ⟨hquiet, .inr hsame⟩
  · obtain ⟨htorn, hdead⟩ := teardown_beside Err.success c₃
    exact ⟨hquiet.trans htorn, .inl hdead⟩

theorem close_beside (c : Conn) : Quiet c c.close ∧ ¬ Live c.close := ⟨closeIo_quiet c, not_live rfl⟩

-- A second SHUT_WR apart.
def ShutsWr : Input → Prop
  | .shutdown wr _ => wr = true
  | _ => False

theorem onReadable_beside (n : ReadRes) (c : Conn) : Beside c (onReadable n c) := by
  have htorn : ∀ err, Beside c (teardown err c) := fun err =>
    ⟨(teardown_beside err c).1, .inl (teardown_beside err c).2⟩
  unfold onReadable
  split
  · exact ⟨.refl rfl, .inr (.refl c)⟩
  · split
    · exact htorn _
    · exact ⟨.emit c rfl, .inr ⟨rfl, rfl, rfl, rfl, rfl⟩⟩
    · exact ⟨.refl rfl, .inr (.refl c)⟩
    · exact htorn _

theorem shutdownRd_beside (rd : Bool) (c : Conn) : Beside c (c.shutdown false rd).2 := by
  unfold Conn.shutdown
  split
  · exact ⟨.refl rfl, .inr (.refl c)⟩
  · dsimp only
    cases rd with
    | true => exact ⟨.emit c rfl, .inr ⟨rfl, rfl, rfl, rfl, rfl⟩⟩
    | false => exact ⟨.refl rfl, .inr (.refl c)⟩

def Writes : Input → Bool
  | .write _ | .writeReady => true
  | _ => false

theorem step_beside (env : Env) (c : Conn) {i : Input} (hwrites : Writes i = false)
    (hwr : ¬ ShutsWr i) : Beside c (step env c i) := by
  cases i with
  | write data => cases hwrites
  | writeReady => cases hwrites
  | readable n =>
      unfold step
      dsimp only
      split
      · exact onReadable_beside n c
      · exact ⟨.refl rfl, .inr (.refl c)⟩
  | shutdown wr rd =>
      obtain rfl : wr = false := by simpa [ShutsWr] using hwr
      exact shutdownRd_beside rd c
  | close => exact ⟨(close_beside c).1, .inl (close_beside c).2⟩
  | destroy => exact ⟨(close_beside { c with destroyed := true }).1, .inl (close_beside _).2⟩

-- ---- flushing ----

-- What is owed, in the kernel or in the queue.
structure Due (owed : Bytes) (c : Conn) (l : List (Nat × WriteNode)) : Prop extends Queued c l where
  bytes : sent c.log ++ unsent l = owed
  noFin : NoFin c.log

theorem Beside.due {owed : Bytes} {l : List (Nat × WriteNode)} (h : Beside c c') (hlive : Live c')
    (hdue : Due owed c l) : Due owed c' l := by
  have hsame := h.same.resolve_left (not_not.mpr hlive)
  refine ⟨hsame.queued hdue.toQueued, ?_, ?_⟩
  · rw [(h.quiet.late.mono fun _ he => he.sent).sent]
    exact hdue.bytes
  · exact (h.quiet.late.mono fun _ he => he.noFin).noFin hdue.noFin

def Event.isSend : Event → Bool
  | .send _ _ => true
  | _ => false

theorem flushLoop_adds (env : Env) (fuel : Nat) (c : Conn) :
    Adds (fun e => Event.isSend e = true) c (flushLoop env fuel c).2 := by
  induction fuel generalizing c with
  | zero => exact .refl rfl
  | succ fuel ih =>
      unfold flushLoop
      split
      · exact .refl rfl
      · rename_i a n hfront
        dsimp only
        generalize env.send c.log (n.data.drop n.offset) = w
        have hsend : Adds (fun e => Event.isSend e = true) c (c.emit (.send (n.data.drop n.offset) w)) :=
          .emit c rfl
        cases w with
        | again => exact hsend
        | failed => exact hsend
        | wrote k =>
            cases k with
            | zero => exact hsend.trans (ih { c.emit _ with queue := _ })
            | succ k =>
                dsimp only
                split
                · exact hsend
                · exact hsend.trans (ih { c.emit _ with queue := _ })

theorem isSend_noFin {e : Event} (h : Event.isSend e = true) : e.isFin = false ∧ e.Refusing := by
  cases e with
  | send data res => exact ⟨rfl, trivial⟩
  | _ => cases h

theorem flush_due (hk : env.Kernel) {owed : Bytes} {l : List (Nat × WriteNode)} (h : Due owed c l) :
    SameConn c (c.flush env).2 ∧ NoFin (c.flush env).2.log ∧
      ((c.flush env).1 < 0 ∨ ∃ l', Due owed (c.flush env).2 l') := by
  have hnofin : NoFin (c.flush env).2.log :=
    ((flushLoop_adds env c.queue.count c).mono fun _ he => (isSend_noFin he).1).noFin h.noFin
  rcases flushLoop_cases hk.send c.queue.count h.toQueued (Nat.le_of_eq h.holds.count.symm) with
    ⟨l', hl'⟩ | hfailed
  · exact ⟨hl'.toSameConn, hnofin, .inr ⟨l', hl'.queued, hl'.bytes.trans h.bytes, hnofin⟩⟩
  · exact ⟨hfailed.toSameConn, hnofin, .inl (by rw [flush, hfailed.ret]; decide)⟩

-- After the FIN the first send fails.
theorem flush_closed (hk : env.Kernel) (hfin : ¬ NoFin c.log) {l : List (Nat × WriteNode)}
    (h : Queued c l) (hl : l ≠ []) : (c.flush env).1 < 0 ∧ Adds Event.Late c (c.flush env).2 := by
  cases l with
  | nil => exact absurd rfl hl
  | cons p rest =>
      obtain ⟨a, n⟩ := p
      rw [flush, h.holds.count, List.length_cons, flushLoop, h.holds.front, List.head?_cons]
      dsimp only
      rw [hk.closed _ _ hfin]
      have hneg : (-1 : Int) < 0 := by decide
      exact ⟨hneg, .emit c ⟨rfl, rfl, trivial⟩⟩

theorem maybeShutdownWr_eq (h : c.shutdownWrPending = false) : c.maybeShutdownWr = c := by
  unfold maybeShutdownWr
  rw [if_neg (by simp [h])]

-- ---- writing ----

-- Nothing to write, or nothing to write it from.
theorem write_nothing (env : Env) (c : Conn) {data : Arg} (hdata : ∀ b, data = .bytes b → b = []) :
    ∃ rc, c.write env data = (rc, c) ∧ (0 < data.len → rc ≠ 0) ∧ data.toBytes = [] := by
  have hinval : Err.inval ≠ 0 := by decide
  have hempty : ∀ data : Arg, data.len = 0 → (∀ n, data ≠ .null (n + 1)) → ∃ rc, c.write env data = (rc, c) := by
    intro data hlen hnull
    by_cases hclosed : c.destroyed = true ∨ c.state ≠ .opened
    · exact ⟨Err.inval, by unfold write; split <;> simp_all⟩
    · exact ⟨0, by unfold write; split <;> simp_all⟩
  cases data with
  | null n =>
      cases n with
      | zero =>
          obtain ⟨rc, h⟩ := hempty (.null 0) rfl fun n h => by cases h
          exact ⟨rc, h, fun h => absurd h (Nat.lt_irrefl 0), rfl⟩
      | succ n => exact ⟨_, rfl, fun _ => hinval, rfl⟩
  | bytes b =>
      obtain rfl := hdata b rfl
      obtain ⟨rc, h⟩ := hempty (.bytes []) rfl fun n h => by cases h
      exact ⟨rc, h, fun h => absurd h (Nat.lt_irrefl 0), rfl⟩

theorem write_dead (h : ¬ Live c) (data : Arg) : c.write env data = (Err.inval, c) := by
  have hclosed : c.destroyed = true ∨ c.state ≠ .opened := not_not.mp fun hn => h (live_iff.mp hn)
  unfold write
  split
  · rfl
  · rw [if_pos hclosed]

-- Memory for the data and for its node.
def Granted (env : Env) (c : Conn) : Prop :=
  env.alloc c.log = true ∧ env.alloc (c.log ++ [.alloc true]) = true

instance decidableGranted (env : Env) (c : Conn) : Decidable (Granted env c) :=
  inferInstanceAs (Decidable (_ ∧ _))

theorem write_ungranted (hlive : Live c) {data : Bytes} (hdata : data ≠ []) (h : ¬ Granted env c) :
    ∃ c', c.write env (.bytes data) = (Err.nomem, c') ∧ Beside c c' := by
  have hopen := live_iff.mpr hlive
  have hlen : ¬ (Arg.bytes data).len = 0 := fun hz => hdata (List.length_eq_zero_iff.mp hz)
  have hemit : ∀ (c : Conn) ok, Beside c (c.emit (.alloc ok)) := fun c ok =>
    ⟨.emit c rfl, .inr ⟨rfl, rfl, rfl, rfl, rfl⟩⟩
  simp only [write, if_neg hopen, if_neg hlen, enqueue, alloc]
  by_cases hfirst : env.alloc c.log = true
  · have hsecond : env.alloc (c.emit (.alloc true)).log = false := by
      by_contra hne
      exact h ⟨hfirst, by simpa [emit] using hne⟩
    simp only [hfirst, hsecond, Bool.not_true, Bool.not_false, Bool.false_eq_true, if_false, if_true]
    have hnode := hemit (c.emit (.alloc true)) false
    exact ⟨_, rfl, (hemit c true).quiet.trans hnode.quiet, .inr ⟨rfl, rfl, rfl, rfl, rfl⟩⟩
  · have hfail : env.alloc c.log = false := by simpa using hfirst
    simp only [hfail, Bool.not_false, if_true]
    exact ⟨_, rfl, hemit c false⟩

theorem Due.emit {owed : Bytes} {l : List (Nat × WriteNode)} (h : Due owed c l) {e : Event}
    (hfin : e.isFin = false) (hsent : e.sentBytes = []) : Due owed (c.emit e) l := by
  refine ⟨h.toQueued.emit e, ?_, h.noFin.append fun e' he' => List.mem_singleton.mp he' ▸ hfin⟩
  rw [sent_emit, hsent, List.append_nil]
  exact h.bytes

theorem Due.added {owed data : Bytes} {l : List (Nat × WriteNode)} (h : Due owed c l) (hdata : data ≠ []) :
    Due (owed ++ data) (c.added data) (l ++ [(c.nextAddr, ⟨data, 0⟩)]) := by
  obtain ⟨hqueued, -, hlog, hbytes⟩ := h.toQueued.added hdata
  refine ⟨hqueued, by rw [hbytes, h.bytes], ?_⟩
  rw [hlog]
  refine h.noFin.append fun e he => ?_
  simp only [List.mem_cons, List.not_mem_nil, or_false] at he
  rcases he with rfl | rfl <;> rfl

-- A write that gets its memory while no shutdown is pending.
theorem write_due (hk : env.Kernel) {owed data : Bytes} {l : List (Nat × WriteNode)} (h : Due owed c l)
    (hlive : Live c) (hpending : c.shutdownWrPending = false) (hdata : data ≠ []) (hg : Granted env c) :
    ∃ rc c', c.write env (.bytes data) = (rc, c') ∧
      (Live c' → rc = 0 ∧ c'.shutdownWrPending = false ∧ accepted c'.log = accepted c.log ∧
        ∃ l', Due (owed ++ data) c' l') := by
  obtain ⟨-, hsame, -, -⟩ := h.toQueued.added hdata
  obtain ⟨hflushed, -, hrest⟩ := flush_due hk (h.added hdata)
  rw [write_granted (live_iff.mpr hlive) hdata hg.1 hg.2]
  generalize (c.added data).flush env = r at hflushed hrest ⊢
  have hsame' := hsame.trans hflushed
  have hpending' : r.2.shutdownWrPending = false := hsame'.pending.trans hpending
  dsimp only
  split
  · exact ⟨_, _, rfl, fun hlive' => absurd hlive' (teardown_beside _ _).2⟩
  · rename_i hret
    obtain ⟨l', hl'⟩ := hrest.resolve_left hret
    split
    · refine ⟨_, _, rfl, fun hlive' => ?_⟩
      have hbeside := updateIo_beside env r.2
      have hkept := hbeside.same.resolve_left (not_not.mpr hlive')
      exact ⟨rfl, hkept.pending.trans hpending', hbeside.quiet.accepted.trans hsame'.accepted,
        l', hbeside.due hlive' hl'⟩
    · rw [maybeShutdownWr_eq hpending']
      exact ⟨_, _, rfl, fun _ => ⟨rfl, hpending', hsame'.accepted, l', hl'⟩⟩

-- ---- before the shutdown ----

-- What is owed is what the writes have been given.
def Open (c : Conn) : Prop :=
  Live c → c.shutdownWrPending = false ∧ ∃ l, Due (accepted c.log) c l

theorem step_dead (env : Env) (h : ¬ Live c) (i : Input) (hwr : ¬ ShutsWr i) :
    ¬ Live (step env c i) ∧ Adds Event.Late c (step env c i) := by
  have hother : Beside c (step env c i) → ¬ Live (step env c i) ∧ Adds Event.Late c (step env c i) :=
    fun hbeside => ⟨hbeside.same.elim id fun hsame hlive => h (hsame.live.mp hlive), hbeside.quiet.late⟩
  have hinval : Err.inval ≠ 0 := by decide
  cases i with
  | write data =>
      simp only [step, write_dead h data]
      exact ⟨h, .emit c ⟨rfl, rfl, fun _ => hinval⟩⟩
  | writeReady =>
      have hready : c.onWriteReady env = c := if_pos (not_not.mp fun hn => h (live_iff.mp hn))
      simp only [step, hready, ite_self]
      exact ⟨h, .refl rfl⟩
  | readable n => exact hother (step_beside env c rfl hwr)
  | shutdown wr rd => exact hother (step_beside env c rfl hwr)
  | close => exact hother (step_beside env c rfl hwr)
  | destroy => exact hother (step_beside env c rfl hwr)

theorem Beside.open (h : Beside c c') (hc : Open c) : Open c' := by
  intro hlive
  have hsame := h.same.resolve_left (not_not.mpr hlive)
  obtain ⟨hpending, l, hl⟩ := hc (hsame.live.mp hlive)
  refine ⟨hsame.pending.trans hpending, l, ?_⟩
  rw [h.quiet.accepted]
  exact h.due hlive hl

theorem onWriteReady_open (hk : env.Kernel) (h : Open c) (hlive : Live c) : Open (c.onWriteReady env) := by
  obtain ⟨hpending, l, hl⟩ := h hlive
  obtain ⟨hsame, -, hrest⟩ := flush_due hk hl
  unfold onWriteReady
  rw [if_neg (live_iff.mpr hlive)]
  generalize c.flush env = r at hsame hrest ⊢
  have hopen : (∃ l', Due (accepted c.log) r.2 l') → Open r.2 := by
    rintro ⟨l', hl'⟩ -
    refine ⟨hsame.pending.trans hpending, l', ?_⟩
    rw [hsame.accepted]
    exact hl'
  dsimp only
  split
  · exact fun hlive' => absurd hlive' (teardown_beside _ _).2
  · rename_i hret
    have hr := hopen (hrest.resolve_left hret)
    split
    · rw [maybeShutdownWr_eq (hsame.pending.trans hpending)]
      exact (updateIo_beside env r.2).open hr
    · exact hr

theorem emit_live {e : Event} : Live (c.emit e) ↔ Live c := Iff.rfl

theorem step_open (hk : env.Kernel) (h : Open c) (i : Input) (hwr : ¬ ShutsWr i) : Open (step env c i) := by
  by_cases hlive : Live c
  swap
  · exact fun hlive' => absurd hlive' (step_dead env hlive i hwr).1
  obtain ⟨hpending, l, hl⟩ := h hlive
  cases i with
  | write data =>
      simp only [step]
      by_cases hdata : ∀ b, data = .bytes b → b = []
      · obtain ⟨rc, hwrite, -, hnone⟩ := write_nothing env c hdata
        rw [hwrite]
        refine fun _ => ⟨hpending, l, ?_⟩
        have haccepted : accepted (c.emit (.wrote data rc)).log = accepted c.log :=
          (SameConn.emit c (by simp [Event.acceptedBytes, hnone])).accepted
        rw [haccepted]
        exact hl.emit rfl rfl
      · push Not at hdata
        obtain ⟨b, rfl, hb⟩ := hdata
        by_cases hg : Granted env c
        · obtain ⟨rc, c', hwrite, hc'⟩ := write_due hk hl hlive hpending hb hg
          rw [hwrite]
          intro hlive'
          obtain ⟨rfl, hp, ha, l', hl'⟩ := hc' hlive'
          refine ⟨hp, l', ?_⟩
          have haccepted : accepted (c'.emit (.wrote (.bytes b) 0)).log = accepted c.log ++ b := by
            rw [emit, accepted_append, ha]
            simp [accepted, Event.acceptedBytes, Arg.toBytes]
          rw [haccepted]
          exact hl'.emit rfl rfl
        · obtain ⟨c', hwrite, hbeside⟩ := write_ungranted hlive hb hg
          rw [hwrite]
          have hrefused := hbeside.open h
          intro hlive'
          obtain ⟨hp, l', hl'⟩ := hrefused hlive'
          refine ⟨hp, l', ?_⟩
          have haccepted : accepted (c'.emit (.wrote (.bytes b) Err.nomem)).log = accepted c'.log :=
            (SameConn.emit c' rfl).accepted
          rw [haccepted]
          exact hl'.emit rfl rfl
  | writeReady =>
      simp only [step]
      split
      · exact onWriteReady_open hk h hlive
      · exact h
  | readable n => exact (step_beside env c rfl hwr).open h
  | shutdown wr rd => exact (step_beside env c rfl hwr).open h
  | close => exact (step_beside env c rfl hwr).open h
  | destroy => exact (step_beside env c rfl hwr).open h

theorem run_open (hk : env.Kernel) (inputs : List Input) (hwr : ∀ i ∈ inputs, ¬ ShutsWr i) (h : Open c) :
    Open (run env c inputs) := by
  induction inputs generalizing c with
  | nil => exact h
  | cons i inputs ih =>
      exact ih (fun i hi => hwr i (List.mem_cons_of_mem _ hi)) (step_open hk h i (hwr i (List.mem_cons_self ..)))

theorem opened_open (fd : Nat) : Open (opened fd) :=
  fun _ => ⟨rfl, [], ⟨.empty, fun _ _ => rfl, fun _ hp => absurd hp List.not_mem_nil⟩, rfl,
    fun _ he => absurd he List.not_mem_nil⟩

-- ---- after the shutdown ----

-- The FIN has gone out once, behind the bytes owed, and nothing behind it.
def Finished (owed : Bytes) (log : List Event) : Prop :=
  ∃ l l', log = l ++ .shutdown true false :: l' ∧ NoFin l ∧ NoFin l' ∧ sent l = owed ∧ sent l' = []

theorem Finished.adds {owed : Bytes} (h : Finished owed c.log) (ha : Adds Event.Late c c') :
    Finished owed c'.log := by
  obtain ⟨l, l', hlog, hl, hl', hsent, hsent'⟩ := h
  obtain ⟨new, hnew, hlate⟩ := ha
  refine ⟨l, l' ++ new, ?_, hl, hl'.append fun e he => (hlate e he).noFin, hsent, ?_⟩
  · rw [hnew, hlog, List.append_assoc, List.cons_append]
  · rw [sent_append, hsent', sent_nil fun e he => (hlate e he).sent, List.append_nil]

theorem Finished.fin {owed : Bytes} {log : List Event} (h : Finished owed log) : ¬ NoFin log := by
  obtain ⟨l, l', rfl, -⟩ := h
  intro hno
  cases hno (.shutdown true false) (by simp)

-- The shutdown waits for the queue, or has been carried out, or the connection has been torn down
-- before.
inductive Closing (owed : Bytes) (c : Conn) : Prop where
  | waits (l : List (Nat × WriteNode)) (hlive : Live c) (hpending : c.shutdownWrPending = true)
      (hdue : Due owed c l) (hne : l ≠ [])
  | done (hfin : Finished owed c.log) (hempty : Live c → c.shutdownWrPending = false ∧ Queued c [])
  | torn (hdead : ¬ Live c) (hnofin : NoFin c.log)

-- A write that is queued while the shutdown waits.
def Slips (env : Env) (c : Conn) : Input → Prop
  | .write data => data.toBytes ≠ [] ∧ Live c ∧ c.shutdownWrPending = true ∧ Granted env c
  | _ => False

instance decidableSlips (env : Env) (c : Conn) (i : Input) : Decidable (Slips env c i) :=
  match i with
  | .write data => inferInstanceAs (Decidable (data.toBytes ≠ [] ∧ Live c ∧ c.shutdownWrPending = true ∧
      Granted env c))
  | .writeReady | .readable _ | .shutdown _ _ | .close | .destroy => inferInstanceAs (Decidable False)

theorem Beside.closing {owed : Bytes} (h : Beside c c') (hc : Closing owed c) : Closing owed c' := by
  have hnofin : NoFin c.log → NoFin c'.log := fun hno => (h.quiet.late.mono fun _ he => he.noFin).noFin hno
  cases hc with
  | waits l hlive hpending hdue hne =>
      by_cases hlive' : Live c'
      · have hsame := h.same.resolve_left (not_not.mpr hlive')
        exact .waits l hlive' (hsame.pending.trans hpending) (h.due hlive' hdue) hne
      · exact .torn hlive' (hnofin hdue.noFin)
  | done hfin hempty =>
      refine .done (hfin.adds h.quiet.late) fun hlive' => ?_
      have hsame := h.same.resolve_left (not_not.mpr hlive')
      obtain ⟨hpending, hqueued⟩ := hempty (hsame.live.mp hlive')
      exact ⟨hsame.pending.trans hpending, hsame.queued hqueued⟩
  | torn hdead hno =>
      refine .torn (fun hlive' => ?_) (hnofin hno)
      exact hdead ((h.same.resolve_left (not_not.mpr hlive')).live.mp hlive')

-- With nothing in the queue the handle is all that on_write_ready is about.
theorem onWriteReady_empty (hlive : Live c) (hpending : c.shutdownWrPending = false) (hq : Queued c []) :
    c.onWriteReady env = updateIo env c := by
  have hhead : c.queue.head = none := hq.holds.head_eq_none.mpr rfl
  have hflush : c.flush env = (0, c) := by
    rw [flush, hq.holds.count]
    rfl
  unfold onWriteReady
  rw [if_neg (live_iff.mpr hlive), hflush]
  simp only [hhead, if_true, maybeShutdownWr_eq hpending]
  rfl

theorem onWriteReady_waits (hk : env.Kernel) {owed : Bytes} {l : List (Nat × WriteNode)} (hlive : Live c)
    (hpending : c.shutdownWrPending = true) (hdue : Due owed c l) :
    Closing owed (c.onWriteReady env) ∧ Adds Event.Refusing c (c.onWriteReady env) := by
  obtain ⟨hsame, hnofin, hrest⟩ := flush_due hk hdue
  have hadds : Adds Event.Refusing c (c.flush env).2 :=
    (flushLoop_adds env c.queue.count c).mono fun _ he => (isSend_noFin he).2
  unfold onWriteReady
  rw [if_neg (live_iff.mpr hlive)]
  generalize c.flush env = r at hsame hnofin hrest hadds ⊢
  have hlive' : Live r.2 := ⟨hsame.destroyed.trans hlive.1, hsame.state.trans hlive.2⟩
  have hpending' : r.2.shutdownWrPending = true := hsame.pending.trans hpending
  dsimp only
  split
  · obtain ⟨hquiet, hdead⟩ := teardown_beside Err.write r.2
    refine ⟨.torn hdead ((hquiet.late.mono fun _ he => he.noFin).noFin hnofin), ?_⟩
    exact hadds.trans (hquiet.late.mono fun _ he => he.refusing)
  · rename_i hret
    obtain ⟨l', hl'⟩ := hrest.resolve_left hret
    split
    · -- the queue is empty: the shutdown is carried out
      rename_i hhead
      obtain rfl : l' = [] := hl'.holds.head_eq_none.mp hhead
      have hshut : r.2.maybeShutdownWr =
          { r.2.emit (.shutdown true false) with shutdownWrPending := false } := if_pos ⟨hpending', hhead⟩
      rw [hshut]
      have hfin : Finished owed (r.2.emit (.shutdown true false)).log := by
        refine ⟨r.2.log, [], rfl, hl'.noFin, fun _ he => absurd he List.not_mem_nil, ?_, rfl⟩
        have hbytes := hl'.bytes
        rw [show unsent [] = [] from rfl, List.append_nil] at hbytes
        exact hbytes
      have hbeside := updateIo_beside env { r.2.emit (.shutdown true false) with shutdownWrPending := false }
      have hdone : Closing owed { r.2.emit (.shutdown true false) with shutdownWrPending := false } :=
        .done hfin fun _ => ⟨rfl, hl'.holds, hl'.fresh, hl'.offset⟩
      refine ⟨hbeside.closing hdone, hadds.trans ?_⟩
      have hemit : Adds Event.Refusing r.2 { r.2.emit (.shutdown true false) with shutdownWrPending := false } :=
        .emit r.2 trivial
      exact hemit.trans (hbeside.quiet.late.mono fun _ he => he.refusing)
    · rename_i hhead
      refine ⟨.waits l' hlive' hpending' hl' ?_, hadds⟩
      rintro rfl
      exact hhead (hl'.holds.head_eq_none.mpr rfl)

theorem Closing.emit {owed : Bytes} (h : Closing owed c) {e : Event} (he : e.Late) :
    Closing owed (c.emit e) := by
  cases h with
  | waits l hlive hpending hdue hne => exact .waits l hlive hpending (hdue.emit he.noFin he.sent) hne
  | done hfin hempty =>
      refine .done (hfin.adds (.emit c he)) fun hlive => ?_
      obtain ⟨hpending, hqueued⟩ := hempty hlive
      exact ⟨hpending, hqueued.emit e⟩
  | torn hdead hnofin =>
      exact .torn hdead (hnofin.append fun e' he' => List.mem_singleton.mp he' ▸ he.noFin)

-- A write after the FIN ends the connection.
theorem write_closed (hk : env.Kernel) {owed data : Bytes} (hfin : Finished owed c.log) (hlive : Live c)
    (hq : Queued c []) (hdata : data ≠ []) (hg : Granted env c) :
    ∃ c', c.write env (.bytes data) = (Err.write, c') ∧ ¬ Live c' ∧ Adds Event.Late c c' := by
  obtain ⟨hqueued, -, hlog, -⟩ := hq.added hdata
  have halloc : (Event.alloc true).Late := ⟨rfl, rfl, trivial⟩
  have hadds : Adds Event.Late c (c.added data) := by
    refine ⟨_, hlog, fun e he => ?_⟩
    simp only [List.mem_cons, List.not_mem_nil, or_false] at he
    rcases he with rfl | rfl <;> exact halloc
  obtain ⟨hret, hflushed⟩ := flush_closed hk (hfin.adds hadds).fin hqueued (by simp)
  rw [write_granted (live_iff.mpr hlive) hdata hg.1 hg.2]
  generalize (c.added data).flush env = r at hret hflushed ⊢
  obtain ⟨hquiet, hdead⟩ := teardown_beside Err.write r.2
  exact ⟨_, if_pos hret, hdead, hadds.trans (hflushed.trans hquiet.late)⟩

theorem write_closing (hk : env.Kernel) {owed : Bytes} (h : Closing owed c) (data : Arg)
    (hslip : ¬ Slips env c (.write data)) :
    ∃ rc c', c.write env data = (rc, c') ∧ (0 < data.len → rc ≠ 0) ∧ Closing owed c' ∧
      Adds Event.Refusing c c' := by
  have hinval : Err.inval ≠ 0 := by decide
  have hnomem : Err.nomem ≠ 0 := by decide
  have hwrite : Err.write ≠ 0 := by decide
  by_cases hdata : ∀ b, data = .bytes b → b = []
  · obtain ⟨rc, hnothing, hrc, -⟩ := write_nothing env c hdata
    exact ⟨rc, c, hnothing, hrc, h, .refl rfl⟩
  push Not at hdata
  obtain ⟨b, rfl, hb⟩ := hdata
  by_cases hlive : Live c
  swap
  · exact ⟨Err.inval, c, write_dead hlive _, fun _ => hinval, h, .refl rfl⟩
  by_cases hg : Granted env c
  swap
  · obtain ⟨c', hrefused, hbeside⟩ := write_ungranted hlive hb hg
    exact ⟨Err.nomem, c', hrefused, fun _ => hnomem, hbeside.closing h,
      hbeside.quiet.late.mono fun _ he => he.refusing⟩
  cases h with
  | waits l hlive hpending hdue hne => exact absurd ⟨hb, hlive, hpending, hg⟩ hslip
  | done hfin hempty =>
      obtain ⟨c', hclosed, hdead, hlate⟩ := write_closed hk hfin hlive (hempty hlive).2 hb hg
      exact ⟨Err.write, c', hclosed, fun _ => hwrite, .done (hfin.adds hlate) fun hl => absurd hl hdead,
        hlate.mono fun _ he => he.refusing⟩
  | torn hdead hnofin => exact absurd hlive hdead

theorem step_closing (hk : env.Kernel) {owed : Bytes} (h : Closing owed c) (i : Input) (hwr : ¬ ShutsWr i)
    (hslip : ¬ Slips env c i) : Closing owed (step env c i) ∧ Adds Event.Refusing c (step env c i) := by
  have hother : Beside c (step env c i) →
      Closing owed (step env c i) ∧ Adds Event.Refusing c (step env c i) :=
    fun hbeside => ⟨hbeside.closing h, hbeside.quiet.late.mono fun _ he => he.refusing⟩
  cases i with
  | write data =>
      obtain ⟨rc, c', hwrite, hrc, hc', hadds⟩ := write_closing hk h data hslip
      simp only [step, hwrite]
      have hlate : (Event.wrote data rc).Late := ⟨rfl, rfl, hrc⟩
      exact ⟨hc'.emit hlate, hadds.trans (.emit c' hlate.refusing)⟩
  | writeReady =>
      simp only [step]
      split
      swap
      · exact ⟨h, .refl rfl⟩
      by_cases hlive : Live c
      · cases h with
        | waits l hlive hpending hdue hne => exact onWriteReady_waits hk hlive hpending hdue
        | done hfin hempty =>
            obtain ⟨hpending, hq⟩ := hempty hlive
            have hbeside := updateIo_beside env c
            rw [onWriteReady_empty hlive hpending hq]
            exact ⟨hbeside.closing (.done hfin hempty), hbeside.quiet.late.mono fun _ he => he.refusing⟩
        | torn hdead hnofin => exact absurd hlive hdead
      · have hready : c.onWriteReady env = c := if_pos (not_not.mp fun hn => hlive (live_iff.mp hn))
        rw [hready]
        exact ⟨h, .refl rfl⟩
  | readable n => exact hother (step_beside env c rfl hwr)
  | shutdown wr rd => exact hother (step_beside env c rfl hwr)
  | close => exact hother (step_beside env c rfl hwr)
  | destroy => exact hother (step_beside env c rfl hwr)

theorem run_closing (hk : env.Kernel) {owed : Bytes} (inputs : List Input) (hwr : ∀ i ∈ inputs, ¬ ShutsWr i)
    (hslip : Trace.AtEach (fun past i => ¬ Slips env (run env c past) i) inputs) (h : Closing owed c) :
    Closing owed (run env c inputs) ∧ Adds Event.Refusing c (run env c inputs) := by
  induction inputs using List.reverseRecOn with
  | nil => exact ⟨h, .refl rfl⟩
  | append_singleton inputs i ih =>
      obtain ⟨hpast, hi⟩ := (Trace.atEach_concat _ _ _).mp hslip
      obtain ⟨hclosing, hadds⟩ := ih (fun i hi => hwr i (List.mem_append_left _ hi)) hpast
      rw [run, List.foldl_append]
      obtain ⟨hclosing', hadds'⟩ := step_closing hk hclosing i (hwr i (by simp)) hi
      exact ⟨hclosing', hadds.trans hadds'⟩

theorem shutdown_closing (hc : Open c) (rd : Bool) (hrc : (c.shutdown true rd).1 = 0) :
    Closing (accepted c.log) (c.shutdown true rd).2 := by
  have hinval : Err.inval ≠ 0 := by decide
  by_cases hlive : Live c
  swap
  · have hdead : c.shutdown true rd = (Err.inval, c) := if_pos (not_not.mp fun hn => hlive (live_iff.mp hn))
    rw [hdead] at hrc
    exact absurd hrc hinval
  obtain ⟨hpending, l, hl⟩ := hc hlive
  have hrd : ∀ c : Conn, Beside c (if rd then c.emit (.shutdown false true) else c) := by
    intro c
    split
    · exact ⟨.emit c rfl, .inr ⟨rfl, rfl, rfl, rfl, rfl⟩⟩
    · exact ⟨.refl rfl, .inr (.refl c)⟩
  unfold Conn.shutdown
  rw [if_neg (live_iff.mpr hlive)]
  dsimp only
  refine (hrd _).closing ?_
  rw [if_pos rfl]
  split
  · rename_i hhead
    exact .waits l hlive rfl ⟨⟨hl.holds, hl.fresh, hl.offset⟩, hl.bytes, hl.noFin⟩ (hl.head.mp hhead)
  · rename_i hhead
    obtain rfl : l = [] := by
      by_contra hne
      exact hhead (hl.head.mpr hne)
    refine .done ⟨c.log, [], rfl, hl.noFin, fun _ he => absurd he List.not_mem_nil, ?_, rfl⟩
      fun _ => ⟨hpending, hl.toQueued.emit _⟩
    have hbytes := hl.bytes
    rw [show unsent [] = [] from rfl, List.append_nil] at hbytes
    exact hbytes

-- A shutdown that has returned 0, in a run in which no write slips into the queue while it waits:
-- every later write is refused, and the FIN goes out once, behind the data of the writes before the
-- shutdown, if the connection is not torn down first.
theorem half_close (env : Env) (hk : env.Kernel) (fd : Nat) (before after : List Input) (rd : Bool)
    (hbefore : ∀ i ∈ before, ¬ ShutsWr i) (hafter : ∀ i ∈ after, ¬ ShutsWr i)
    (hrc : ((run env (opened fd) before).shutdown true rd).1 = 0)
    (hslip : Trace.AtEach (fun past i =>
      ¬ Slips env (run env (step env (run env (opened fd) before) (.shutdown true rd)) past) i) after) :
    let c₀ := run env (opened fd) before
    let c₁ := step env c₀ (.shutdown true rd)
    let c := run env c₁ after
    (∃ l, c.log = c₁.log ++ l ∧ ∀ data rc, Event.wrote data rc ∈ l → 0 < data.len → rc ≠ 0) ∧
      (Finished (accepted c₀.log) c.log ∨
        NoFin c.log ∧ (Live c → c.shutdownWrPending = true ∧
          ∃ l, l ≠ [] ∧ Queued c l ∧ sent c.log ++ unsent l = accepted c₀.log)) := by
  intro c₀ c₁ c
  have hopen : Open c₀ := run_open hk before hbefore (opened_open fd)
  obtain ⟨hclosing, l, hlog, hrefusing⟩ := run_closing hk after hafter hslip (shutdown_closing hopen rd hrc)
  refine ⟨⟨l, hlog, fun data rc hmem => hrefusing _ hmem⟩, ?_⟩
  cases hclosing with
  | waits l hlive hpending hdue hne =>
      exact .inr ⟨hdue.noFin, fun _ => ⟨hpending, l, hne, hdue.toQueued, hdue.bytes⟩⟩
  | done hfin hempty => exact .inl hfin
  | torn hdead hnofin => exact .inr ⟨hnofin, fun hlive => absurd hlive hdead⟩

-- A socket that takes nothing at first.
def patient : Env where
  alloc _ := true
  ioRegister _ := true
  send log data :=
    if log.any Event.isFin then .failed
    else if log.any Event.isSend then .wrote data.length else .again

theorem patient_kernel : patient.Kernel := by
  constructor
  · intro log data hdata
    have hpos := List.length_pos_iff.mpr hdata
    simp only [patient]
    split
    · trivial
    · split
      · exact ⟨hpos, Nat.le_refl _⟩
      · trivial
  · intro log data hfin
    have hany : log.any Event.isFin = true := by
      by_contra hno
      refine hfin fun e he => ?_
      by_contra hne
      exact hno (List.any_eq_true.mpr ⟨e, he, by simpa using hne⟩)
    simp only [patient, hany, if_true]

-- The socket is ready before the next write.
theorem half_close_drained :
    Finished [1, 2] (run patient (step patient (run patient (opened 3) [.write (.bytes [1, 2])])
      (.shutdown true false)) [.writeReady, .write (.bytes [3])]).log := by
  have hbefore : ∀ i ∈ [Input.write (.bytes [1, 2])], ¬ ShutsWr i := by
    intro i hi
    rw [List.mem_singleton.mp hi]
    exact id
  have hafter : ∀ i ∈ [Input.writeReady, .write (.bytes [3])], ¬ ShutsWr i := by
    intro i hi
    simp only [List.mem_cons, List.not_mem_nil, or_false] at hi
    rcases hi with rfl | rfl <;> exact id
  obtain ⟨-, hfin | ⟨hnofin, -⟩⟩ := half_close patient patient_kernel 3 _ _ false hbefore hafter
    (by decide +kernel) (by decide +kernel)
  · have haccepted : accepted (run patient (opened 3) [.write (.bytes [1, 2])]).log = [1, 2] := by
      decide +kernel
    rw [haccepted] at hfin
    exact hfin
  · exact absurd hnofin (by unfold NoFin; decide +kernel)

-- A write that comes first is accepted, and its data goes out before the FIN.
theorem write_slips_in :
    let c₀ := run patient (opened 3) [.write (.bytes [1, 2])]
    let c₁ := step patient c₀ (.shutdown true false)
    let c := step patient c₁ (.write (.bytes [3]))
    patient.Kernel ∧ (c₀.shutdown true false).1 = 0 ∧ accepted c₀.log = [1, 2] ∧
      (c₁.write patient (.bytes [3])).1 = 0 ∧ Live c ∧ sent c.log = [1, 2, 3] ∧ ¬ NoFin c.log := by
  refine ⟨patient_kernel, ?_⟩
  unfold NoFin
  decide +kernel

end Conn

end Sevent.Tcp
