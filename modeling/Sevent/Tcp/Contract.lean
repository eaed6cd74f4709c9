import Sevent.Stream
import Sevent.Tcp.HalfClose

-- A write on a TCP connection keeps to what the layers above expect of a stream, and the socket is
-- given nothing but what the stream has taken, in order.
namespace Sevent.Tcp

open Sevent.Stream (WriteRes)

-- What a callback is told.
def Event.toldAs : Event → Option Event
  | .onData b => some (.onData b)
  | .onOpen => some .onOpen
  | .onClose => some .onClose
  | .onError err => some (.onError err)
  | _ => none

def told (log : List Event) : List Event := log.filterMap Event.toldAs

theorem told_append (log l : List Event) : told (log ++ l) = told log ++ told l :=
  List.filterMap_append

-- The callback that runs before the write returns.
def lastWord : WriteRes → List Event
  | .failed err => [.onError err]
  | .torn _ => [.onClose]
  | _ => []

namespace Conn

variable {env : Env} {c c' : Conn} {owed data : Bytes}

-- ---- what is told ----

def Untold (c c' : Conn) : Prop := Adds (fun e => e.toldAs = none) c c'

theorem Untold.told (h : Untold c c') : told c'.log = told c.log := by
  obtain ⟨l, hl, hP⟩ := h
  rw [hl, told_append, show Tcp.told l = [] from List.filterMap_eq_nil_iff.mpr hP, List.append_nil]

theorem closeIo_untold (c : Conn) : Untold c c.closeIo := by
  unfold closeIo
  extract_lets c₁ c₂ c₃
  have hfirst : Untold c c₂ := by
    simp only [c₂]
    split
    · exact .emit c rfl
    · exact .refl rfl
  split
  · exact hfirst.trans (.emit c₂ rfl)
  · exact hfirst

theorem flush_untold (env : Env) (c : Conn) : Untold c (c.flush env).2 :=
  (flushLoop_adds env c.queue.count c).mono fun e he => by
    cases e with
    | send data res => rfl
    | _ => cases he

-- The end of a connection is told once, by the last callback.
theorem teardown_told (err : Int) (h : Live c) :
    (teardown err c).state = .idle ∧ (teardown err c).destroyed = false ∧
      told (teardown err c).log =
        told c.log ++ [if err = Err.success then .onClose else .onError err] := by
  have hclose : Untold c { c.closeIo.queueClear with state := .idle } := closeIo_untold c
  have hdead : c.closeIo.destroyed = false := by
    rw [← h.1]
    unfold closeIo
    dsimp only
    split_ifs <;> rfl
  have hopen : ¬ (c.destroyed = true ∨ c.state = .idle) := by
    rintro (hd | hs)
    · cases h.1.symm.trans hd
    · cases h.2.symm.trans hs
  unfold teardown
  rw [if_neg hopen]
  dsimp only
  by_cases herr : err = Err.success
  · rw [if_neg (not_not.mpr herr), if_pos herr]
    exact ⟨rfl, hdead, by rw [emit, told_append, hclose.told]; rfl⟩
  · rw [if_pos herr, if_neg herr]
    exact ⟨rfl, hdead, by rw [emit, told_append, hclose.told]; rfl⟩

theorem updateIo_told (env : Env) (h : Live c) :
    Live (updateIo env c) ∧ told (updateIo env c).log = told c.log ∨
      (updateIo env c).state = .idle ∧ told (updateIo env c).log = told c.log ++ [.onClose] := by
  unfold updateIo
  extract_lets hd c₁ ok c₂ c₃
  have hfirst : Untold c c₁ ∧ Live c₁ := by
    simp only [c₁]
    split
    · exact ⟨.emit c rfl, h⟩
    · exact ⟨.refl rfl, h⟩
  have huntold : Untold c c₃ := hfirst.1.trans (.emit c₁ rfl)
  have hlive : Live c₃ := hfirst.2
  split
  · exact .inl ⟨hlive, huntold.told⟩
  · obtain ⟨hidle, -, htold⟩ := teardown_told Err.success hlive
    exact .inr ⟨hidle, by rw [htold, huntold.told]; rfl⟩

-- ---- what the socket is given ----

-- A flush that fails has given it a part.
theorem flushLoop_prefix
    (hsend : ∀ log data, data ≠ [] → (env.send log data).Bounded data.length) (fuel : Nat) {c : Conn}
    {l : List (Nat × WriteNode)} (h : Queued c l) :
    sent (flushLoop env fuel c).2.log <+: sent c.log ++ unsent l := by
  induction fuel generalizing c l with
  | zero => exact List.prefix_append _ _
  | succ fuel ih =>
      unfold flushLoop
      rw [h.holds.front]
      cases l with
      | nil => exact List.prefix_append _ _
      | cons p rest =>
          obtain ⟨a, n⟩ := p
          have hoff : n.offset < n.data.length := h.offset (a, n) (List.mem_cons_self ..)
          have hlen : n.rest.length = n.data.length - n.offset := List.length_drop
          have hne : n.rest ≠ [] := List.ne_nil_of_length_pos (by omega)
          have hbounded := hsend c.log n.rest hne
          have hdef : n.data.drop n.offset = n.rest := rfl
          have hq := h.emit (.send n.rest (env.send c.log n.rest))
          simp only [List.head?_cons, hdef, unsent_cons]
          cases hres : env.send c.log n.rest with
          | failed =>
              simp only [sent_emit, Event.sentBytes, List.append_nil]
              exact List.prefix_append _ _
          | again =>
              simp only [sent_emit, Event.sentBytes, List.append_nil]
              exact List.prefix_append _ _
          | wrote k =>
              rw [hres] at hq hbounded
              cases k with
              | zero => exact absurd hbounded.1 (Nat.lt_irrefl 0)
              | succ k =>
                  dsimp only
                  split
                  · simp only [sent_emit, Event.sentBytes]
                    refine (List.prefix_append_right_inj _).mpr ?_
                    exact (List.take_prefix _ _).trans (List.prefix_append _ _)
                  · rename_i hfull
                    have htake : n.rest.take (k + 1) = n.rest := List.take_of_length_le (by omega)
                    have hrest := ih hq.pop
                    simp only [sent_emit, Event.sentBytes, htake, List.append_assoc] at hrest
                    exact hrest

-- What has been given to the socket, and what waits: a part of what is owed, and all of it while the
-- connection lives.
structure Carrying (owed : Bytes) (c : Conn) : Prop where
  part : sent c.log <+: owed
  due : Live c → c.shutdownWrPending = false ∧ ∃ l, Due owed c l

theorem Carrying.of_due {l : List (Nat × WriteNode)} (hp : c.shutdownWrPending = false)
    (h : Due owed c l) : Carrying owed c :=
  ⟨by rw [← h.bytes]; exact List.prefix_append _ _, fun _ => ⟨hp, l, h⟩⟩

theorem Carrying.dead (h : sent c.log <+: owed) (hd : ¬ Live c) : Carrying owed c :=
  ⟨h, fun hlive => absurd hlive hd⟩

theorem Carrying.beside (h : Carrying owed c) (hb : Beside c c') : Carrying owed c' := by
  refine ⟨?_, fun hlive => ?_⟩
  · rw [(hb.quiet.late.mono fun _ he => he.sent).sent]
    exact h.part
  · have hsame := hb.same.resolve_left (not_not.mpr hlive)
    obtain ⟨hp, l, hl⟩ := h.due (hsame.live.mp hlive)
    exact ⟨hsame.pending.trans hp, l, hb.due hlive hl⟩

-- ---- one write ----

-- What a write has done, as the layer above sees it.
def writeRes (r : Int × Conn) : WriteRes :=
  if r.1 = Err.success then if r.2.state = .opened then .ok else .torn true
  else if r.1 = Err.nomem then .nomem
  else if r.1 = Err.inval then .inval
  else .failed r.1

structure Kept (owed data : Bytes) (c : Conn) (r : Int × Conn) : Prop where
  ret : r.1 = (writeRes r).ret
  valid : writeRes r ≠ .inval
  tears : (writeRes r).tears = true ↔ ¬ Live r.2
  told : told r.2.log = told c.log ++ lastWord (writeRes r)
  carrying : Carrying (if writeRes r = .nomem then owed else owed ++ data) r.2

theorem Kept.of {r : Int × Conn} (res : WriteRes) (hres : writeRes r = res) (hret : r.1 = res.ret)
    (hvalid : res ≠ .inval) (htears : res.tears = true ↔ ¬ Live r.2)
    (htold : Tcp.told r.2.log = Tcp.told c.log ++ lastWord res)
    (hcarrying : Carrying (if res = .nomem then owed else owed ++ data) r.2) : Kept owed data c r := by
  subst hres
  exact ⟨hret, hvalid, htears, htold, hcarrying⟩

theorem Kept.ok {r : Int × Conn} (hrc : r.1 = Err.success) (hlive : Live r.2)
    (htold : Tcp.told r.2.log = Tcp.told c.log) (hcarrying : Carrying (owed ++ data) r.2) :
    Kept owed data c r := by
  have htears : (WriteRes.ok).tears = true ↔ ¬ Live r.2 :=
    ⟨fun h => (by cases h), fun h => absurd hlive h⟩
  refine .of .ok ?_ hrc (by decide) htears ?_ hcarrying
  · rw [writeRes, if_pos hrc, if_pos hlive.2]
  · rw [htold]
    exact (List.append_nil _).symm

theorem write_refused (hlive : Live c) (hdata : data ≠ []) (h : ¬ Granted env c) :
    ∃ c', c.write env (.bytes data) = (Err.nomem, c') ∧ Untold c c' ∧ SameQueue c c' ∧ Beside c c' := by
  obtain ⟨c', heq, hbeside⟩ := write_ungranted hlive hdata h
  have hlen : ¬ (Arg.bytes data).len = 0 := fun hz => hdata (List.length_eq_zero_iff.mp hz)
  have hwrite := heq
  simp only [write, if_neg (live_iff.mpr hlive), if_neg hlen, enqueue, alloc] at hwrite
  refine ⟨c', heq, ?_⟩
  by_cases hfirst : env.alloc c.log = true
  · have hsecond : env.alloc (c.emit (.alloc true)).log = false := by
      by_contra hne
      exact h ⟨hfirst, by simpa [emit] using hne⟩
    simp only [hfirst, hsecond, Bool.not_true, Bool.not_false, Bool.false_eq_true, if_false,
      if_true] at hwrite
    obtain rfl := (Prod.mk.inj hwrite).2
    have huntold : Untold (c.emit (.alloc true)) ((c.emit (.alloc true)).emit (.alloc false)) :=
      .emit _ rfl
    exact ⟨Adds.trans (.emit c rfl) huntold, ⟨rfl, rfl, rfl, rfl, rfl⟩, hbeside⟩
  · have hfail : env.alloc c.log = false := by simpa using hfirst
    simp only [hfail, Bool.not_false, if_true] at hwrite
    obtain rfl := (Prod.mk.inj hwrite).2
    exact ⟨.emit c rfl, ⟨rfl, rfl, rfl, rfl, rfl⟩, hbeside⟩

theorem added_told (data : Bytes) (h : Live c) : Live (c.added data) ∧ told (c.added data).log = told c.log := by
  refine ⟨h, ?_⟩
  have hadds : Untold c ((c.emit (.alloc true)).emit (.alloc true)) := Adds.trans (.emit c rfl) (.emit _ rfl)
  exact hadds.told

-- The write of tcp_conn.c is a write of a stream.
theorem write_kept (hk : env.Kernel) (h : Carrying owed c) (hlive : Live c) (hdata : data ≠ []) :
    Kept owed data c (c.write env (.bytes data)) := by
  obtain ⟨hpending, l, hl⟩ := h.due hlive
  by_cases hg : Granted env c
  case neg =>
    obtain ⟨c', heq, huntold, hsame, hbeside⟩ := write_refused hlive hdata hg
    have hlive' : Live c' := hsame.live.mpr hlive
    rw [heq]
    have htears : (WriteRes.nomem).tears = true ↔ ¬ Live c' :=
      ⟨fun h => (by cases h), fun h => absurd hlive' h⟩
    refine .of .nomem rfl rfl (by decide) htears ?_ (h.beside hbeside)
    rw [huntold.told]
    exact (List.append_nil _).symm
  obtain ⟨hadded, htold⟩ := added_told data hlive
  have hdue := hl.added hdata
  obtain ⟨hsame, -, hrest⟩ := flush_due hk hdue
  have hprefix := flushLoop_prefix hk.send (c.added data).queue.count hdue.toQueued
  have huntold := (flush_untold env (c.added data)).told
  rw [hdue.bytes, ← flush] at hprefix
  rw [write_granted (live_iff.mpr hlive) hdata hg.1 hg.2]
  generalize (c.added data).flush env = r at hsame hrest hprefix huntold ⊢
  have hliver : Live r.2 := ⟨hsame.destroyed.trans hadded.1, hsame.state.trans hadded.2⟩
  have hpendingr : r.2.shutdownWrPending = false := hsame.pending.trans hpending
  dsimp only
  split_ifs with hneg hhead
  · -- a send has failed, or the queue is longer than an int
    obtain ⟨-, -, htorn⟩ := teardown_told Err.write hliver
    obtain ⟨hquiet, hdead⟩ := teardown_beside Err.write r.2
    refine .of (.failed Err.write) rfl rfl (by decide) ⟨fun _ => hdead, fun _ => rfl⟩ ?_ ?_
    · rw [htorn, huntold, htold]
      rfl
    · refine Carrying.dead ?_ hdead
      rw [(hquiet.late.mono fun _ he => he.sent).sent]
      exact hprefix
  · obtain ⟨l', hl'⟩ := hrest.resolve_left hneg
    have hcarrying := (Carrying.of_due hpendingr hl').beside (updateIo_beside env r.2)
    rcases updateIo_told env hliver with ⟨hlive', htold'⟩ | ⟨hidle, htold'⟩
    · exact .ok rfl hlive' (htold'.trans (huntold.trans htold)) hcarrying
    · refine .of (.torn true) ?_ rfl (by decide) ⟨fun _ => not_live hidle, fun _ => rfl⟩ ?_
        hcarrying
      · have hclosed : ¬ (updateIo env r.2).state = .opened := by
          rw [hidle]
          decide
        exact if_neg hclosed
      · rw [htold', huntold, htold]
        rfl
  · obtain ⟨l', hl'⟩ := hrest.resolve_left hneg
    rw [maybeShutdownWr_eq hpendingr]
    exact .ok rfl hliver (huntold.trans htold) (Carrying.of_due hpendingr hl')

-- What the loop writes meanwhile.
theorem onWriteReady_carrying (hk : env.Kernel) (h : Carrying owed c) : Carrying owed (c.onWriteReady env) := by
  by_cases hlive : Live c
  case neg =>
    have hready : c.onWriteReady env = c := if_pos (not_not.mp fun hn => hlive (live_iff.mp hn))
    rwa [hready]
  obtain ⟨hpending, l, hl⟩ := h.due hlive
  obtain ⟨hsame, -, hrest⟩ := flush_due hk hl
  have hprefix := flushLoop_prefix hk.send c.queue.count hl.toQueued
  rw [hl.bytes, ← flush] at hprefix
  unfold onWriteReady
  rw [if_neg (live_iff.mpr hlive)]
  generalize c.flush env = r at hsame hrest hprefix ⊢
  have hpendingr : r.2.shutdownWrPending = false := hsame.pending.trans hpending
  dsimp only
  split_ifs with hneg hempty
  · obtain ⟨hquiet, hdead⟩ := teardown_beside Err.write r.2
    refine Carrying.dead ?_ hdead
    rw [(hquiet.late.mono fun _ he => he.sent).sent]
    exact hprefix
  · obtain ⟨l', hl'⟩ := hrest.resolve_left hneg
    rw [maybeShutdownWr_eq hpendingr]
    exact (Carrying.of_due hpendingr hl').beside (updateIo_beside env r.2)
  · obtain ⟨l', hl'⟩ := hrest.resolve_left hneg
    exact Carrying.of_due hpendingr hl'

theorem writeReady_carrying (hk : env.Kernel) (h : Carrying owed c) :
    Carrying owed (c.step env .writeReady) := by
  simp only [step]
  split_ifs
  · exact onWriteReady_carrying hk h
  · exact h

theorem opened_carrying (fd : Nat) : Carrying [] (opened fd) :=
  ⟨List.nil_prefix, fun _ => ⟨rfl, [], ⟨.empty, fun _ _ => rfl, List.forall_mem_nil _⟩, rfl,
    List.forall_mem_nil _⟩⟩

-- In every run without a half-close: what a write returns, what it reports and what it does to the
-- connection are those of one outcome of a stream's write, and the socket has been given a part of
-- what the writes were, all but what waits in the queue while the connection lives.
theorem writes_as_stream (env : Env) (hk : env.Kernel) (fd : Nat) (inputs : List Input)
    (hwr : ∀ i ∈ inputs, ¬ ShutsWr i) (hlive : Live (run env (opened fd) inputs)) (data : Bytes)
    (hdata : data ≠ []) :
    let c := run env (opened fd) inputs
    let r := c.write env (.bytes data)
    r.1 = (writeRes r).ret ∧ writeRes r ≠ .inval ∧ ((writeRes r).tears = true ↔ ¬ Live r.2) ∧
      told r.2.log = told c.log ++ lastWord (writeRes r) ∧
      sent r.2.log <+: accepted c.log ++ (if writeRes r = .nomem then [] else data) ∧
      (Live r.2 → ∃ l, Queued r.2 l ∧
        sent r.2.log ++ unsent l = accepted c.log ++ if writeRes r = .nomem then [] else data) := by
  intro c r
  obtain ⟨hpending, l, hl⟩ := run_open hk inputs hwr (opened_open fd) hlive
  have hkept := write_kept hk (Carrying.of_due hpending hl) hlive hdata
  have howed : (if writeRes r = .nomem then accepted c.log else accepted c.log ++ data) =
      accepted c.log ++ if writeRes r = .nomem then [] else data := by
    split_ifs
    · exact (List.append_nil _).symm
    · rfl
  have hcarrying := hkept.carrying
  rw [howed] at hcarrying
  refine ⟨hkept.ret, hkept.valid, hkept.tears, hkept.told, hcarrying.part, fun hlive' => ?_⟩
  obtain ⟨-, l', hl'⟩ := hcarrying.due hlive'
  exact ⟨l', hl'.toQueued, hl'.bytes⟩

-- The socket cannot be registered again: the write has been accepted, and on_close has run.
def unregistered : Env := { patient with ioRegister := fun _ => false }

theorem writes_as_stream_torn :
    let r := (opened 3).write unregistered (.bytes [1, 2])
    r.1 = 0 ∧ writeRes r = .torn true ∧ ¬ Live r.2 ∧ told r.2.log = [.onClose] := by
  have hk : unregistered.Kernel := ⟨patient_kernel.send, patient_kernel.closed⟩
  have hres : writeRes ((opened 3).write unregistered (.bytes [1, 2])) = .torn true := by decide
  obtain ⟨hret, -, htears, htold, -, -⟩ := writes_as_stream unregistered hk 3 []
    (List.forall_mem_nil _) ⟨rfl, rfl⟩ [1, 2] (by decide)
  rw [show run unregistered (opened 3) [] = opened 3 from rfl, hres] at hret htears htold
  exact ⟨hret, hres, htears.mp rfl, htold⟩

end Conn

end Sevent.Tcp
