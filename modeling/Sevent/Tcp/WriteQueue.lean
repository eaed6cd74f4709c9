import Sevent.Trace
import Sevent.Tcp.Conn

-- The write queue is a lossless FIFO: what the kernel has taken, then what is queued, is what the
-- writes have been given.
namespace Sevent.Tcp

open Chain (Queue)

-- ---- the bytes of a log ----

def Event.sentBytes : Event → Bytes
  | .send data (.wrote n) => data.take n
  | _ => []

def Event.acceptedBytes : Event → Bytes
  | .wrote data rc => if rc = 0 then data.toBytes else []
  | _ => []

-- The bytes handed to the kernel.
def sent (log : List Event) : Bytes := log.flatMap Event.sentBytes

-- The data of the writes that have returned 0.
def accepted (log : List Event) : Bytes := log.flatMap Event.acceptedBytes

def WriteNode.rest (n : WriteNode) : Bytes := n.data.drop n.offset

-- The bytes that wait in the queue.
def unsent (l : List (Nat × WriteNode)) : Bytes := l.flatMap fun p => p.2.rest

@[simp] theorem sent_append (log l : List Event) : sent (log ++ l) = sent log ++ sent l :=
  List.flatMap_append

@[simp] theorem accepted_append (log l : List Event) :
    accepted (log ++ l) = accepted log ++ accepted l :=
  List.flatMap_append

@[simp] theorem unsent_append (l l' : List (Nat × WriteNode)) :
    unsent (l ++ l') = unsent l ++ unsent l' :=
  List.flatMap_append

@[simp] theorem unsent_cons (p : Nat × WriteNode) (l : List (Nat × WriteNode)) :
    unsent (p :: l) = p.2.rest ++ unsent l := rfl

-- A send of `len` bytes takes some of them, or none for now.
def SendRes.Proper (len : Nat) : SendRes → Prop
  | .wrote n => 0 < n ∧ n ≤ len
  | .again => True
  | .failed => False

-- What a send returns is a number of its bytes, and not 0.
def SendRes.Bounded (len : Nat) : SendRes → Prop
  | .wrote n => 0 < n ∧ n ≤ len
  | _ => True

theorem SendRes.Proper.bounded {len : Nat} {w : SendRes} (h : w.Proper len) : w.Bounded len := by
  cases w with
  | wrote n => exact h
  | again => trivial
  | failed => trivial

-- The layers below work; the results of the sends are free.
structure Env.Works (env : Env) : Prop where
  alloc : ∀ log, env.alloc log = true
  ioRegister : ∀ log, env.ioRegister log = true
  send : ∀ log data, data ≠ [] → (env.send log data).Proper data.length

namespace Conn

-- ---- the invariant of the queue ----

structure Queued (c : Conn) (l : List (Nat × WriteNode)) : Prop where
  holds : c.queue.Holds l
  fresh : ∀ a, c.nextAddr ≤ a → c.queue.heap a = none
  offset : ∀ p ∈ l, p.2.offset < p.2.data.length

-- Everything but the queue and the log.
structure SameConn (c c' : Conn) : Prop where
  fd : c'.fd = c.fd
  ioHandle : c'.ioHandle = c.ioHandle
  state : c'.state = c.state
  destroyed : c'.destroyed = c.destroyed
  pending : c'.shutdownWrPending = c.shutdownWrPending
  accepted : accepted c'.log = accepted c.log

theorem SameConn.trans {a b c : Conn} (h : SameConn a b) (h' : SameConn b c) : SameConn a c :=
  ⟨h'.fd.trans h.fd, h'.ioHandle.trans h.ioHandle, h'.state.trans h.state,
    h'.destroyed.trans h.destroyed, h'.pending.trans h.pending, h'.accepted.trans h.accepted⟩

theorem SameConn.emit (c : Conn) {e : Event} (he : e.acceptedBytes = []) : SameConn c (c.emit e) :=
  ⟨rfl, rfl, rfl, rfl, rfl, by simp [Conn.emit, Tcp.accepted, he]⟩

theorem Queued.emit {c : Conn} {l : List (Nat × WriteNode)} (h : Queued c l) (e : Event) :
    Queued (c.emit e) l := ⟨h.holds, h.fresh, h.offset⟩

theorem Queued.pop {c : Conn} {p : Nat × WriteNode} {l : List (Nat × WriteNode)}
    (h : Queued c (p :: l)) : Queued { c with queue := c.queue.pop } l :=
  ⟨h.holds.pop, fun b hb => Queue.pop_free (h.fresh b hb),
    fun p hp => h.offset p (List.mem_cons_of_mem _ hp)⟩

theorem Queued.setItem {c : Conn} {a : Nat} {n n' : WriteNode} {l : List (Nat × WriteNode)}
    (h : Queued c ((a, n) :: l)) (hn : n'.offset < n'.data.length) :
    Queued { c with queue := c.queue.setItem a n' } ((a, n') :: l) := by
  refine ⟨h.holds.setItem n', fun b hb => Queue.setItem_free (h.fresh b hb) n', fun p hp => ?_⟩
  rcases List.mem_cons.mp hp with rfl | hp
  · exact hn
  · exact h.offset p (List.mem_cons_of_mem _ hp)

theorem Queued.push {c : Conn} {l : List (Nat × WriteNode)} (h : Queued c l) {data : Bytes}
    (hdata : data ≠ []) :
    Queued { c with queue := c.queue.push c.nextAddr ⟨data, 0⟩, nextAddr := c.nextAddr + 1 }
      (l ++ [(c.nextAddr, ⟨data, 0⟩)]) := by
  refine ⟨h.holds.push (h.fresh _ (Nat.le_refl _)) _, fun b hb => ?_, fun p hp => ?_⟩
  · dsimp only at hb
    exact Queue.push_free (h.fresh b (by omega)) (by omega) _
  · rcases List.mem_append.mp hp with hp | hp
    · exact h.offset p hp
    · obtain rfl := List.mem_singleton.mp hp
      exact List.length_pos_iff.mpr hdata

-- What tcp_flush leaves: nothing, or the nodes it returns the number of.
structure Flushed (env : Env) (c : Conn) (l : List (Nat × WriteNode)) (r : Int × Conn)
    (l' : List (Nat × WriteNode)) : Prop extends SameConn c r.2 where
  queued : Queued r.2 l'
  bytes : sent r.2.log ++ unsent l' = sent c.log ++ unsent l
  length_le : l'.length ≤ l.length
  -- the first node goes if its send takes all of it
  shorter : ∀ p rest, l = p :: rest → env.send c.log p.2.rest = .wrote p.2.rest.length →
    l'.length < l.length
  ret : r.1 = 0 ∧ l' = [] ∨ r.1 = Loop.toInt l'.length ∧ l' ≠ []

theorem Queued.remaining {c : Conn} {l : List (Nat × WriteNode)} (h : Queued c l) :
    c.remaining = Loop.toInt l.length := by
  rw [Conn.remaining, h.holds.count]

theorem SameConn.queue (c : Conn) (q : Queue WriteNode) : SameConn c { c with queue := q } :=
  ⟨rfl, rfl, rfl, rfl, rfl, rfl⟩

theorem sent_emit (c : Conn) (e : Event) : sent (c.emit e).log = sent c.log ++ e.sentBytes := by
  simp [Conn.emit, sent]

theorem Flushed.nothing (env : Env) {c : Conn} (h : Queued c []) : Flushed env c [] (0, c) [] :=
  ⟨⟨rfl, rfl, rfl, rfl, rfl, rfl⟩, h, rfl, Nat.le_refl _, nofun, .inl ⟨rfl, rfl⟩⟩

-- A send of tcp_flush has failed.
structure FlushFailed (env : Env) (c : Conn) (r : Int × Conn) : Prop extends SameConn c r.2 where
  ret : r.1 = -1
  send : ∃ log data, data ≠ [] ∧ env.send log data = .failed

theorem flushLoop_cases {env : Env}
    (hsend : ∀ log data, data ≠ [] → (env.send log data).Bounded data.length) (fuel : Nat) {c : Conn}
    {l : List (Nat × WriteNode)} (h : Queued c l) (hfuel : l.length ≤ fuel) :
    (∃ l', Flushed env c l (flushLoop env fuel c) l') ∨ FlushFailed env c (flushLoop env fuel c) := by
  induction fuel generalizing c l with
  | zero =>
      obtain rfl := List.eq_nil_of_length_eq_zero (Nat.le_zero.mp hfuel)
      exact .inl ⟨[], .nothing env h⟩
  | succ fuel ih =>
      unfold flushLoop
      rw [h.holds.front]
      cases l with
      | nil => exact .inl ⟨[], .nothing env h⟩
      | cons p rest =>
          obtain ⟨a, n⟩ := p
          have hoff : n.offset < n.data.length := h.offset (a, n) (List.mem_cons_self ..)
          have hlen : n.rest.length = n.data.length - n.offset := List.length_drop
          have hne : n.rest ≠ [] := List.ne_nil_of_length_pos (by omega)
          have hbounded := hsend c.log n.rest hne
          have hdef : n.data.drop n.offset = n.rest := rfl
          simp only [List.head?_cons, hdef]
          have he : SameConn c (c.emit (.send n.rest (env.send c.log n.rest))) := .emit c rfl
          have hq := h.emit (.send n.rest (env.send c.log n.rest))
          cases hres : env.send c.log n.rest with
          | failed =>
              rw [hres] at he
              exact .inr ⟨he.trans (.queue _ _), rfl, c.log, n.rest, hne, hres⟩
          | again =>
              rw [hres] at he hq
              refine .inl ⟨(a, n) :: rest, ⟨he, hq, ?_, Nat.le_refl _, ?_, .inr ⟨?_, by simp⟩⟩⟩
              · rw [sent_emit]
                simp [Event.sentBytes]
              · intro p l' hp hfull
                cases hp
                cases hres.symm.trans hfull
              · simp only [hq.remaining, List.length_cons]
          | wrote k =>
              rw [hres] at he hq hbounded
              cases k with
              | zero => exact absurd hbounded.1 (Nat.lt_irrefl 0)
              | succ k =>
              have hle : k + 1 ≤ n.rest.length := hbounded.2
              dsimp only
              split
              · rename_i hpart
                have hsplit : n.rest.take (k + 1) ++ n.data.drop (n.offset + (k + 1)) = n.rest := by
                  rw [← List.drop_drop]
                  exact List.take_append_drop (k + 1) n.rest
                refine .inl ⟨(a, ⟨n.data, n.offset + (k + 1)⟩) :: rest, ⟨he.trans (.queue _ _),
                  hq.setItem hpart, ?_, Nat.le_refl _, ?_, .inr ⟨?_, by simp⟩⟩⟩
                · have hafter : WriteNode.rest ⟨n.data, n.offset + (k + 1)⟩ =
                      n.data.drop (n.offset + (k + 1)) := rfl
                  simp only [sent_emit, Event.sentBytes, unsent_cons, hafter]
                  rw [List.append_assoc, ← List.append_assoc (n.rest.take (k + 1)), hsplit]
                · intro p l' hp hfull
                  cases hp
                  dsimp only at hfull
                  rw [hres] at hfull
                  have hk : k + 1 = n.rest.length := SendRes.wrote.inj hfull
                  omega
                · simp only [hq.remaining, List.length_cons]
              · rename_i hfull
                have htake : n.rest.take (k + 1) = n.rest := List.take_of_length_le (by omega)
                rcases ih hq.pop (Nat.le_of_succ_le_succ hfuel) with ⟨l', hl'⟩ | hfailed
                swap
                · exact .inr ⟨(he.trans (.queue _ _)).trans hfailed.toSameConn, hfailed.ret, hfailed.send⟩
                refine .inl ⟨l', ⟨(he.trans (.queue _ _)).trans hl'.toSameConn, hl'.queued, ?_, ?_, ?_, hl'.ret⟩⟩
                · rw [hl'.bytes]
                  simp only [sent_emit, Event.sentBytes, htake, unsent_cons, List.append_assoc]
                · exact Nat.le_succ_of_le hl'.length_le
                · intro p l'' hp _
                  cases hp
                  exact Nat.lt_succ_of_le hl'.length_le

theorem flushLoop_flushed {env : Env} (hw : env.Works) (fuel : Nat) {c : Conn}
    {l : List (Nat × WriteNode)} (h : Queued c l) (hfuel : l.length ≤ fuel) :
    ∃ l', Flushed env c l (flushLoop env fuel c) l' := by
  rcases flushLoop_cases (fun log data hdata => (hw.send log data hdata).bounded) fuel h hfuel with
    hflushed | ⟨-, -, log, data, hdata, hfailed⟩
  · exact hflushed
  · have hproper := hw.send log data hdata
    rw [hfailed] at hproper
    exact hproper.elim

theorem flush_flushed {env : Env} (hw : env.Works) {c : Conn} {l : List (Nat × WriteNode)}
    (h : Queued c l) : ∃ l', Flushed env c l (c.flush env) l' :=
  flushLoop_flushed hw _ h (Nat.le_of_eq h.holds.count.symm)

-- ---- operations ----

-- Nothing is lost, and what waits is waited for. Inside a write its data is owed.
structure Lossless (owed : Bytes) (c : Conn) (l : List (Nat × WriteNode)) : Prop extends Queued c l where
  bytes : sent c.log ++ unsent l = accepted c.log ++ owed
  opened : c.state = .opened
  alive : c.destroyed = false
  handle : ∃ w, c.ioHandle = some ⟨c.fd, some .onReadable, w⟩ ∧ (l ≠ [] → w = some .onWriteReady)
  few : l.length ≤ Loop.intMax

theorem Queued.head {c : Conn} {l : List (Nat × WriteNode)} (h : Queued c l) :
    c.queue.head.isSome = true ↔ l ≠ [] := by
  rw [Option.isSome_iff_ne_none, ne_eq, h.holds.head_eq_none]

theorem Lossless.emit {owed : Bytes} {c : Conn} {l : List (Nat × WriteNode)} (h : Lossless owed c l)
    {e : Event} (hs : e.sentBytes = []) (ha : e.acceptedBytes = []) : Lossless owed (c.emit e) l := by
  refine ⟨h.toQueued.emit e, ?_, h.opened, h.alive, h.handle, h.few⟩
  rw [sent_emit, hs, List.append_nil, (SameConn.emit c ha).accepted]
  exact h.bytes

theorem Lossless.pending {owed : Bytes} {c : Conn} {l : List (Nat × WriteNode)}
    (h : Lossless owed c l) (p : Bool) : Lossless owed { c with shutdownWrPending := p } l :=
  ⟨⟨h.holds, h.fresh, h.offset⟩, h.bytes, h.opened, h.alive, h.handle, h.few⟩

theorem Lossless.maybeShutdownWr {owed : Bytes} {c : Conn} {l : List (Nat × WriteNode)}
    (h : Lossless owed c l) : Lossless owed c.maybeShutdownWr l := by
  unfold Conn.maybeShutdownWr
  split
  · exact (h.emit (e := .shutdown true false) rfl rfl).pending false
  · exact h

-- The handle is made for the queue as it is.
theorem updateIo_lossless {env : Env} (hw : env.Works) {owed : Bytes} {c : Conn}
    {l : List (Nat × WriteNode)} (hq : Queued c l)
    (hbytes : sent c.log ++ unsent l = accepted c.log ++ owed) (ho : c.state = .opened)
    (ha : c.destroyed = false) (hfew : l.length ≤ Loop.intMax) :
    Lossless owed (c.updateIo env) l := by
  unfold updateIo
  extract_lets hd c₁ ok c₂ c₃
  have hok : ok = true := hw.ioRegister _
  have hsame : c₁.queue = c.queue ∧ c₁.nextAddr = c.nextAddr ∧ c₁.fd = c.fd ∧ c₁.state = c.state ∧
      c₁.destroyed = c.destroyed ∧ sent c₁.log = sent c.log ∧ accepted c₁.log = accepted c.log := by
    simp only [c₁]
    split
    · refine ⟨rfl, rfl, rfl, rfl, rfl, ?_, (SameConn.emit c (e := .ioUnregister) rfl).accepted⟩
      rw [sent_emit]
      simp [Event.sentBytes]
    · exact ⟨rfl, rfl, rfl, rfl, rfl, rfl, rfl⟩
  obtain ⟨hqueue, haddr, hfd, hstate, hdestroyed, hsent, haccepted⟩ := hsame
  clear_value c₁
  have hqueue₃ : c₃.queue = c.queue := hqueue
  have haddr₃ : c₃.nextAddr = c.nextAddr := haddr
  have hhandle : c₃.ioHandle = some ⟨c₃.fd, some .onReadable, hd.ioWrite⟩ := by
    have hfd₃ : c₃.fd = c.fd := hfd
    simp only [c₃, hok, if_true, hd]
    rw [← hfd₃]
  have hbytes₃ : sent c₃.log ++ unsent l = accepted c₃.log ++ owed := by
    have hs : sent c₃.log = sent c₁.log := by simp [c₃, c₂, Conn.emit, sent, Event.sentBytes]
    have ha : accepted c₃.log = accepted c₁.log := by
      simp [c₃, c₂, Conn.emit, accepted, Event.acceptedBytes]
    rw [hs, ha, hsent, haccepted]
    exact hbytes
  rw [if_pos hok]
  refine ⟨⟨?_, ?_, hq.offset⟩, hbytes₃, hstate.trans ho, hdestroyed.trans ha,
    ⟨hd.ioWrite, hhandle, fun hne => ?_⟩, hfew⟩
  · rw [hqueue₃]
    exact hq.holds
  · rw [hqueue₃, haddr₃]
    exact hq.fresh
  · simp only [hd, hq.head.mpr hne, if_true]

-- ---- the writes that the count of nodes defeats ----

-- The queue has as many nodes as an int can count, and the first one stays when another is added.
def Overlong (env : Env) (c : Conn) : Input → Prop
  | .write data => data.len ≠ 0 ∧ Loop.intMax ≤ c.queue.count ∧
      ∀ p ∈ c.queue.front,
        env.send (c.log ++ [.alloc true, .alloc true]) p.2.rest ≠ .wrote p.2.rest.length
  | _ => False

instance decidableOverlong (env : Env) (c : Conn) (i : Input) : Decidable (Overlong env c i) :=
  match i with
  | .write data => inferInstanceAs (Decidable (data.len ≠ 0 ∧ Loop.intMax ≤ c.queue.count ∧
      ∀ p ∈ c.queue.front,
        env.send (c.log ++ [.alloc true, .alloc true]) p.2.rest ≠ .wrote p.2.rest.length))
  | .writeReady | .readable _ | .shutdown _ _ | .close | .destroy => inferInstanceAs (Decidable False)

-- The connection when the new node is queued.
def added (b : Bytes) (c : Conn) : Conn :=
  let c := (c.emit (.alloc true)).emit (.alloc true)
  { c with queue := c.queue.push c.nextAddr ⟨b, 0⟩, nextAddr := c.nextAddr + 1 }

theorem Queued.added {c : Conn} {l : List (Nat × WriteNode)} (h : Queued c l) {b : Bytes} (hb : b ≠ []) :
    Queued (c.added b) (l ++ [(c.nextAddr, ⟨b, 0⟩)]) ∧ SameConn c (c.added b) ∧
      (c.added b).log = c.log ++ [.alloc true, .alloc true] ∧
      sent (c.added b).log ++ unsent (l ++ [(c.nextAddr, ⟨b, 0⟩)]) = sent c.log ++ unsent l ++ b := by
  have hlog : (c.added b).log = c.log ++ [.alloc true, .alloc true] := by
    simp [Conn.added, Conn.emit]
  have hsame : SameConn c ((c.emit (.alloc true)).emit (.alloc true)) := (SameConn.emit c rfl).trans (.emit _ rfl)
  refine ⟨((h.emit _).emit _).push hb, ⟨rfl, rfl, rfl, rfl, rfl, hsame.accepted⟩, hlog, ?_⟩
  have hrest : unsent [(c.nextAddr, (⟨b, 0⟩ : WriteNode))] = b := by simp [unsent, WriteNode.rest]
  rw [hlog, unsent_append, hrest, sent_append]
  simp [sent, Event.sentBytes]

theorem Lossless.added {c : Conn} {l : List (Nat × WriteNode)} (h : Lossless [] c l) {b : Bytes}
    (hb : b ≠ []) :
    Queued (c.added b) (l ++ [(c.nextAddr, ⟨b, 0⟩)]) ∧ SameConn c (c.added b) ∧
      (c.added b).log = c.log ++ [.alloc true, .alloc true] ∧
      sent (c.added b).log ++ unsent (l ++ [(c.nextAddr, ⟨b, 0⟩)]) = accepted c.log ++ b := by
  have hbytes := h.bytes
  rw [List.append_nil] at hbytes
  rw [← hbytes]
  exact h.toQueued.added hb

theorem write_granted {env : Env} {c : Conn} {b : Bytes}
    (hopen : ¬ (c.destroyed = true ∨ c.state ≠ .opened)) (hb : b ≠ []) (hdata : env.alloc c.log = true)
    (hnode : env.alloc (c.log ++ [.alloc true]) = true) :
    c.write env (.bytes b) =
      let r := (c.added b).flush env
      if r.1 < 0 then (Err.write, teardown Err.write r.2)
      else if r.2.queue.head.isSome then (0, updateIo env r.2)
      else (0, r.2.maybeShutdownWr) := by
  have hlen : ¬ (Arg.bytes b).len = 0 := fun hz => hb (List.length_eq_zero_iff.mp hz)
  have hnode' : env.alloc (c.emit (.alloc true)).log = true := hnode
  simp only [write, if_neg hopen, if_neg hlen, enqueue, alloc, hdata, hnode', Bool.not_true,
    Bool.false_eq_true, if_false]
  rfl

theorem write_eq {env : Env} (hw : env.Works) {c : Conn} {b : Bytes}
    (hopen : ¬ (c.destroyed = true ∨ c.state ≠ .opened)) (hb : b ≠ []) :
    c.write env (.bytes b) =
      let r := (c.added b).flush env
      if r.1 < 0 then (Err.write, teardown Err.write r.2)
      else if r.2.queue.head.isSome then (0, updateIo env r.2)
      else (0, r.2.maybeShutdownWr) :=
  write_granted hopen hb (hw.alloc _) (hw.alloc _)

-- The flush of a write leaves no more nodes than an int can count.
theorem Flushed.few {env : Env} {c c₁ : Conn} {l : List (Nat × WriteNode)} {b : Bytes}
    (h : Lossless [] c l) (hfit : ¬ Overlong env c (.write (.bytes b))) (hb : b ≠ [])
    (hlog : c₁.log = c.log ++ [.alloc true, .alloc true]) {x : Nat × WriteNode} {r : Int × Conn}
    {l' : List (Nat × WriteNode)} (hf : Flushed env c₁ (l ++ [x]) r l') :
    l'.length ≤ Loop.intMax := by
  have hle := hf.length_le
  have hfew := h.few
  rw [List.length_append, List.length_singleton] at hle
  by_cases hshort : l.length < Loop.intMax
  · omega
  · cases l with
    | nil => exact absurd hshort (by simp [Loop.intMax])
    | cons p rest =>
        have hfull : env.send c₁.log p.2.rest = .wrote p.2.rest.length := by
          by_contra hstuck
          refine hfit ⟨?_, ?_, fun p' hp' => ?_⟩
          · exact fun hz => hb (List.length_eq_zero_iff.mp hz)
          · rw [h.holds.count]
            omega
          · rw [h.holds.front, List.head?_cons, Option.mem_some_iff] at hp'
            subst hp'
            rw [← hlog]
            exact hstuck
        have hlt := hf.shorter p (rest ++ [x]) rfl hfull
        rw [List.length_append, List.length_singleton] at hlt
        omega

-- What tcp_flush returns is the number of nodes, as long as an int can hold it.
theorem Flushed.nonneg {env : Env} {c : Conn} {l l' : List (Nat × WriteNode)} {r : Int × Conn}
    (h : Flushed env c l r l') (hfew : l'.length ≤ Loop.intMax) : ¬ r.1 < 0 := by
  rcases h.ret with ⟨hzero, -⟩ | ⟨hcount, -⟩
  · omega
  · rw [hcount, Loop.toInt_of_small (Int.natCast_nonneg _) (by exact_mod_cast hfew)]
    omega

theorem Lossless.paid {b : Bytes} {c : Conn} {l : List (Nat × WriteNode)} (h : Lossless b c l) :
    Lossless [] (c.emit (.wrote (.bytes b) 0)) l := by
  refine ⟨h.toQueued.emit _, ?_, h.opened, h.alive, h.handle, h.few⟩
  rw [sent_emit, List.append_nil]
  simp only [Conn.emit, accepted_append, Event.sentBytes, List.append_nil, h.bytes]
  simp [accepted, Event.acceptedBytes, Arg.toBytes]

theorem write_lossless {env : Env} (hw : env.Works) {c : Conn} {l : List (Nat × WriteNode)}
    (h : Lossless [] c l) (data : Arg) (hfit : ¬ Overlong env c (.write data)) :
    ∃ l', Lossless [] (step env c (.write data)) l' := by
  have hopen : ¬ (c.destroyed = true ∨ c.state ≠ .opened) := by simp [h.alive, h.opened]
  -- nothing is queued, and a 0 stands for no bytes
  have hquiet : ∀ rc, (rc = 0 → data.toBytes = []) → Lossless [] (c.emit (.wrote data rc)) l := by
    intro rc hrc
    refine h.emit rfl ?_
    by_cases h0 : rc = 0
    · simp [Event.acceptedBytes, h0, hrc h0]
    · simp [Event.acceptedBytes, h0]
  cases data with
  | null n =>
      cases n with
      | zero => exact ⟨l, by simpa [step, write, if_neg hopen, Arg.len] using hquiet 0 fun _ => rfl⟩
      | succ n => exact ⟨l, by simpa [step, write] using hquiet Err.inval fun _ => rfl⟩
  | bytes b =>
      by_cases hb : b = []
      · subst hb
        exact ⟨l, by simpa [step, write, if_neg hopen, Arg.len] using hquiet 0 fun _ => rfl⟩
      obtain ⟨hq, hsame, hlog, hbytes⟩ := h.added hb
      obtain ⟨l', hf⟩ := flush_flushed hw hq
      have hfew := Flushed.few h hfit hb hlog hf
      have hret := hf.nonneg hfew
      have hsame' := hsame.trans hf.toSameConn
      rw [← hf.bytes, ← hsame'.accepted] at hbytes
      simp only [step, write_eq hw hopen hb]
      generalize (c.added b).flush env = r at hf hret hsame' hbytes ⊢
      have hopen' : r.2.state = .opened := hsame'.state.trans h.opened
      have halive : r.2.destroyed = false := hsame'.destroyed.trans h.alive
      rw [if_neg hret]
      split
      · exact ⟨l', (updateIo_lossless hw hf.queued hbytes hopen' halive hfew).paid⟩
      · rename_i hhead
        have hnil : l' = [] := by
          by_contra hne
          exact hhead (hf.queued.head.mpr hne)
        obtain ⟨w, hw', -⟩ := h.handle
        have hempty : Lossless b r.2 l' :=
          ⟨hf.queued, hbytes, hopen', halive, ⟨w, by rw [hsame'.ioHandle, hsame'.fd, hw'],
            fun hne => absurd hnil hne⟩, hfew⟩
        exact ⟨l', hempty.maybeShutdownWr.paid⟩

theorem onWriteReady_lossless {env : Env} (hw : env.Works) {c : Conn} {l : List (Nat × WriteNode)}
    (h : Lossless [] c l) : ∃ l', Lossless [] (c.onWriteReady env) l' := by
  unfold onWriteReady
  rw [if_neg (by simp [h.alive, h.opened])]
  obtain ⟨l', hf⟩ := flush_flushed hw h.toQueued
  have hfew : l'.length ≤ Loop.intMax := Nat.le_trans hf.length_le h.few
  have hret := hf.nonneg hfew
  have hbytes : sent (c.flush env).2.log ++ unsent l' = accepted (c.flush env).2.log ++ [] := by
    rw [hf.bytes, hf.accepted]
    exact h.bytes
  generalize c.flush env = r at hf hret hbytes ⊢
  obtain ⟨left, c₁⟩ := r
  have hopen : c₁.state = .opened := hf.state.trans h.opened
  have halive : c₁.destroyed = false := hf.destroyed.trans h.alive
  dsimp only at hret ⊢
  rw [if_neg hret]
  split
  · rename_i hhead
    obtain rfl : l' = [] := (hf.queued.holds.head_eq_none).mp hhead
    obtain ⟨w, hw', -⟩ := h.handle
    have hempty : Lossless [] c₁ [] :=
      ⟨hf.queued, hbytes, hopen, halive, ⟨w, by rw [hf.ioHandle, hf.fd, hw'], fun hne => absurd rfl hne⟩, hfew⟩
    have hafter := hempty.maybeShutdownWr
    exact ⟨[], updateIo_lossless hw hafter.toQueued hafter.bytes hafter.opened hafter.alive hfew⟩
  · rename_i hhead
    -- the handle stays as it was: there was something to write before
    obtain ⟨w, hw', hwrite⟩ := h.handle
    have hne : l ≠ [] := by
      rintro rfl
      have hnil := List.eq_nil_of_length_eq_zero (Nat.le_zero.mp hf.length_le)
      exact hhead ((hf.queued.holds.head_eq_none).mpr hnil)
    exact ⟨l', hf.queued, hbytes, hopen, halive, ⟨w, by rw [hf.ioHandle, hf.fd, hw'], fun _ => hwrite hne⟩,
      hfew⟩

theorem shutdown_lossless {c : Conn} {l : List (Nat × WriteNode)} (h : Lossless [] c l) (wr rd : Bool) :
    Lossless [] (c.shutdown wr rd).2 l := by
  unfold Conn.shutdown
  rw [if_neg (by simp [h.alive, h.opened])]
  extract_lets c₁
  have h₁ : Lossless [] c₁ l := by
    simp only [c₁]
    split
    · split
      · exact h.pending true
      · exact h.emit rfl rfl
    · exact h
  dsimp only
  split
  · exact h₁.emit rfl rfl
  · exact h₁

-- ---- runs ----

-- Writes and what the socket reports while the connection lives.
def Traffic : Input → Prop
  | .write _ => True
  | .writeReady => True
  | .readable (.data b) => b ≠ []
  | .readable .again => True
  | .shutdown _ _ => True
  | _ => False

theorem step_lossless {env : Env} (hw : env.Works) {c : Conn} {l : List (Nat × WriteNode)}
    (h : Lossless [] c l) (i : Input) (ht : Traffic i) (hfit : ¬ Overlong env c i) :
    ∃ l', Lossless [] (step env c i) l' := by
  cases i with
  | write data => exact write_lossless hw h data hfit
  | writeReady =>
      simp only [step]
      split
      · exact onWriteReady_lossless hw h
      · exact ⟨l, h⟩
  | readable n =>
      refine ⟨l, ?_⟩
      simp only [step, onReadable, h.alive]
      split
      · cases n with
        | data b =>
            cases b with
            | nil => exact absurd rfl ht
            | cons b rest => exact h.emit rfl rfl
        | again => exact h
        | failed => exact ht.elim
      · exact h
  | shutdown wr rd => exact ⟨l, shutdown_lossless h wr rd⟩
  | close => exact ht.elim
  | destroy => exact ht.elim

-- No write of the run is too much for the count.
def Countable (env : Env) (c : Conn) (inputs : List Input) : Prop :=
  Trace.AtEach (fun past i => ¬ Overlong env (run env c past) i) inputs

instance decidableCountable (env : Env) (c : Conn) (inputs : List Input) :
    Decidable (Countable env c inputs) :=
  inferInstanceAs (Decidable (Trace.AtEach _ inputs))

theorem run_lossless {env : Env} (hw : env.Works) {c : Conn} (inputs : List Input)
    (ht : ∀ i ∈ inputs, Traffic i) (hfit : Countable env c inputs) {l : List (Nat × WriteNode)}
    (h : Lossless [] c l) : ∃ l', Lossless [] (run env c inputs) l' := by
  induction inputs using List.reverseRecOn with
  | nil => exact ⟨l, h⟩
  | append_singleton inputs i ih =>
      obtain ⟨hpast, hi⟩ := (Trace.atEach_concat _ _ _).mp hfit
      obtain ⟨l', hl'⟩ := ih (fun i hi => ht i (List.mem_append_left _ hi)) hpast
      rw [run, List.foldl_append]
      exact step_lossless hw hl' i (ht i (by simp)) hi

theorem opened_lossless (fd : Nat) : Lossless [] (opened fd) [] :=
  ⟨⟨.empty, fun _ _ => rfl, nofun⟩, rfl, rfl, rfl, ⟨none, rfl, fun h => absurd rfl h⟩, Nat.zero_le _⟩

-- The write queue is a lossless FIFO, whatever the sends take, in a run without such a write.
theorem write_queue_lossless (env : Env) (hw : env.Works) (fd : Nat) (inputs : List Input)
    (ht : ∀ i ∈ inputs, Traffic i) (hfit : Countable env (opened fd) inputs) :
    ∃ l, let c := run env (opened fd) inputs
      sent c.log ++ unsent l = accepted c.log ∧
        Chain.Linked c.queue.heap c.queue.head l ∧ c.queue.count = l.length ∧
        c.queue.tail = (l.map Prod.fst).getLast? ∧ (c.queue.tail = none ↔ l = []) ∧
        (∀ p ∈ l, p.2.offset < p.2.data.length) ∧
        (l ≠ [] → c.ioHandle = some ⟨c.fd, some .onReadable, some .onWriteReady⟩) := by
  obtain ⟨l, h⟩ := run_lossless hw inputs ht hfit (opened_lossless fd)
  have hbytes := h.bytes
  rw [List.append_nil] at hbytes
  obtain ⟨w, hhandle, hwrite⟩ := h.handle
  exact ⟨l, hbytes, h.holds.linked, h.holds.count, h.holds.tail, h.holds.tail_eq_none, h.offset,
    fun hne => hwrite hne ▸ hhandle⟩

-- Every other send takes two bytes, the others none.
def halting : Env where
  alloc _ := true
  ioRegister _ := true
  send log data := if log.length % 2 = 0 then .wrote (min 2 data.length) else .again

theorem halting_works : halting.Works := by
  refine ⟨fun _ => rfl, fun _ => rfl, fun log data hdata => ?_⟩
  have hpos := List.length_pos_iff.mpr hdata
  simp only [halting]
  split
  · simp only [SendRes.Proper]
    omega
  · trivial

def haltingInputs : List Input :=
  [.write (.bytes [1, 2, 3, 4, 5]), .writeReady, .write (.bytes [6]), .write (.null 0), .writeReady]

theorem write_queue_lossless_halting :
    (run halting (opened 3) haltingInputs).queue.count = 1 ∧
      ∃ l, sent (run halting (opened 3) haltingInputs).log ++ unsent l = [1, 2, 3, 4, 5, 6] := by
  obtain ⟨ht, hfit, hcount, haccepted⟩ : (∀ i ∈ haltingInputs, Traffic i) ∧
      Countable halting (opened 3) haltingInputs ∧
      (run halting (opened 3) haltingInputs).queue.count = 1 ∧
      accepted (run halting (opened 3) haltingInputs).log = [1, 2, 3, 4, 5, 6] := by
    refine ⟨fun i hi => ?_, by decide +kernel, by decide +kernel, by decide +kernel⟩
    simp only [haltingInputs, List.mem_cons, List.not_mem_nil, or_false] at hi
    rcases hi with rfl | rfl | rfl | rfl | rfl <;> trivial
  obtain ⟨l, hbytes, -⟩ := write_queue_lossless halting halting_works 3 haltingInputs ht hfit
  exact ⟨hcount, l, hbytes.trans haccepted⟩

-- A socket that takes nothing.
def blocked : Env where
  alloc _ := true
  ioRegister _ := true
  send _ _ := .again

theorem blocked_works : blocked.Works := ⟨fun _ => rfl, fun _ => rfl, fun _ _ _ => trivial⟩

def byteWrites (n : Nat) : List Input := List.replicate n (.write (.bytes [0x41]))

theorem blocked_flush {c : Conn} {l : List (Nat × WriteNode)} (h : Queued c l) (hl : l ≠ []) :
    c.flush blocked = (c.remaining, c.emit (.send ((l.head hl).2.rest) .again)) := by
  cases l with
  | nil => exact absurd rfl hl
  | cons p rest =>
      rw [flush, h.holds.count, List.length_cons, flushLoop, h.holds.front]
      rfl

theorem blocked_write {c : Conn} {l : List (Nat × WriteNode)} (h : Lossless [] c l) :
    ∃ e, c.write blocked (.bytes [0x41]) =
      if Loop.toInt ((l.length + 1 : Nat) : Int) < 0 then
        (Err.write, teardown Err.write ((c.added [0x41]).emit (.send e .again)))
      else (0, updateIo blocked ((c.added [0x41]).emit (.send e .again))) := by
  have hopen : ¬ (c.destroyed = true ∨ c.state ≠ .opened) := by simp [h.alive, h.opened]
  obtain ⟨hq, -, -, -⟩ := h.added (b := [0x41]) (by simp)
  have hne : l ++ [(c.nextAddr, (⟨[0x41], 0⟩ : WriteNode))] ≠ [] := by simp
  refine ⟨(List.head _ hne).2.rest, ?_⟩
  have hremaining := hq.remaining
  rw [List.length_append, List.length_singleton] at hremaining
  rw [write_eq blocked_works hopen (by simp), blocked_flush hq hne]
  simp only [hremaining, (hq.emit _).head.mpr hne, if_true]

theorem updateIo_queue (c : Conn) :
    (c.updateIo blocked).queue = c.queue ∧ sent (c.updateIo blocked).log = sent c.log := by
  unfold updateIo
  extract_lets hd c₁ ok c₂ c₃
  have hok : ok = true := rfl
  rw [if_pos hok]
  have hsame : c₁.queue = c.queue ∧ sent c₁.log = sent c.log := by
    simp only [c₁]
    split
    · exact ⟨rfl, by simp [sent_emit, Event.sentBytes]⟩
    · exact ⟨rfl, rfl⟩
  clear_value c₁
  refine ⟨hsame.1, ?_⟩
  have hlog : sent c₃.log = sent c₁.log := by simp [c₃, c₂, Conn.emit, sent, Event.sentBytes]
  exact hlog.trans hsame.2

theorem added_sent (b : Bytes) (c : Conn) (e : Bytes) :
    sent ((c.added b).emit (.send e .again)).log = sent c.log := by
  simp [Conn.added, Conn.emit, sent, Event.sentBytes]

theorem run_byteWrites (env : Env) (c : Conn) (n : Nat) :
    run env c (byteWrites (n + 1)) = step env (run env c (byteWrites n)) (.write (.bytes [0x41])) := by
  rw [byteWrites, List.replicate_succ', run, List.foldl_append]
  rfl

-- Every write adds a node while the count fits.
theorem blocked_run (n : Nat) (hn : n ≤ Loop.intMax) :
    ∃ l, Lossless [] (run blocked (opened 3) (byteWrites n)) l ∧ l.length = n ∧
      sent (run blocked (opened 3) (byteWrites n)).log = [] := by
  induction n with
  | zero => exact ⟨[], opened_lossless 3, rfl, rfl⟩
  | succ n ih =>
      obtain ⟨l, h, hlen, hsent⟩ := ih (by omega)
      rw [run_byteWrites]
      generalize run blocked (opened 3) (byteWrites n) = c at h hsent ⊢
      have hfit : ¬ Overlong blocked c (.write (.bytes [0x41])) := by
        rintro ⟨-, hcount, -⟩
        rw [h.holds.count] at hcount
        omega
      obtain ⟨l', hl'⟩ := write_lossless blocked_works h (.bytes [0x41]) hfit
      obtain ⟨e, hwrite⟩ := blocked_write h
      have hfits : ¬ Loop.toInt ((l.length + 1 : Nat) : Int) < 0 := by
        rw [Loop.toInt_of_small (by omega) (by exact_mod_cast (by omega : l.length + 1 ≤ Loop.intMax))]
        omega
      rw [if_neg hfits] at hwrite
      obtain ⟨hqueue, hlog⟩ := updateIo_queue ((c.added [0x41]).emit (.send e .again))
      refine ⟨l', hl', ?_, ?_⟩
      · have hafter := hl'.holds.count
        have hadded := (h.added (b := [0x41]) (by simp)).1.holds.count
        have hsame : (step blocked c (.write (.bytes [0x41]))).queue = (c.added [0x41]).queue := by
          simp only [step, hwrite]
          exact hqueue
        rw [hsame, hadded, List.length_append, List.length_singleton] at hafter
        omega
      · simp only [step, hwrite]
        rw [sent_emit, hlog, added_sent, hsent]
        rfl

theorem teardown_cleared {c : Conn} (ho : c.state = .opened) (ha : c.destroyed = false) :
    (teardown Err.write c).queue = .empty ∧ sent (teardown Err.write c).log = sent c.log ∧
      accepted (teardown Err.write c).log = accepted c.log := by
  have hclose : sent c.closeIo.log = sent c.log ∧ accepted c.closeIo.log = accepted c.log := by
    by_cases hh : c.ioHandle.isSome = true <;> by_cases hfd : 0 ≤ c.fd <;>
      simp [closeIo, hh, hfd, Conn.emit, sent, accepted, Event.sentBytes, Event.acceptedBytes]
  unfold teardown
  rw [if_neg (by simp [ho, ha])]
  simp only [ne_eq, show ¬ Err.write = Err.success by decide, not_false_eq_true, if_true]
  refine ⟨rfl, ?_, ?_⟩
  · simp only [sent_emit, Event.sentBytes, List.append_nil]
    exact hclose.1
  · rw [(SameConn.emit _ (e := .onError Err.write) rfl).accepted]
    exact hclose.2

theorem toInt_overlong : Loop.toInt ((Loop.intMax + 1 : Nat) : Int) < 0 := by decide +kernel

-- The write after as many as an int can count.
theorem blocked_overlong {c : Conn} {l : List (Nat × WriteNode)} (h : Lossless [] c l)
    (hlen : l.length = Loop.intMax) (hsent : sent c.log = []) :
    let c' := step blocked c (.write (.bytes [0x41]))
    c'.queue.head = none ∧ sent c'.log = [] ∧ accepted c'.log ≠ [] := by
  obtain ⟨e, hwrite⟩ := blocked_write h
  rw [hlen, if_pos toInt_overlong] at hwrite
  obtain ⟨-, hsame, -, -⟩ := h.added (b := [0x41]) (by simp)
  obtain ⟨hqueue, hs, ha⟩ := teardown_cleared (c := (c.added [0x41]).emit (.send e .again))
    (hsame.state.trans h.opened) (hsame.destroyed.trans h.alive)
  simp only [step, hwrite]
  refine ⟨congrArg Queue.head hqueue, ?_, ?_⟩
  · rw [sent_emit, hs, added_sent, hsent]
    rfl
  · have hkept : accepted ((teardown Err.write ((c.added [0x41]).emit (.send e .again))).emit
        (.wrote (.bytes [0x41]) Err.write)).log = accepted c.log := by
      rw [(SameConn.emit _ (e := .wrote (.bytes [0x41]) Err.write) rfl).accepted, ha,
        (SameConn.emit _ (e := .send e .again) rfl).accepted, hsame.accepted]
    rw [hkept]
    have hbytes := h.bytes
    rw [hsent, List.nil_append, List.append_nil] at hbytes
    rw [← hbytes]
    cases l with
    | nil =>
        rw [List.length_nil, Loop.intMax] at hlen
        omega
    | cons p rest =>
        have hoff := h.offset p (List.mem_cons_self ..)
        intro hnil
        have hrest : p.2.rest = [] := (List.append_eq_nil_iff.mp hnil).1
        have hzero : p.2.rest.length = 0 := by
          rw [hrest]
          rfl
        rw [WriteNode.rest, List.length_drop] at hzero
        omega

-- The count of the nodes as an int is negative with 2147483648 of them: tcp_flush seems to have
-- failed, and what the queue held is lost.
theorem overlong_queue_lost :
    blocked.Works ∧ (∀ i ∈ byteWrites (Loop.intMax + 1), Traffic i) ∧
      let c := run blocked (opened 3) (byteWrites (Loop.intMax + 1))
      ¬ ∃ l, Chain.Linked c.queue.heap c.queue.head l ∧ sent c.log ++ unsent l = accepted c.log := by
  refine ⟨blocked_works, fun i hi => ?_, ?_⟩
  · rw [List.eq_of_mem_replicate hi]
    trivial
  · obtain ⟨l, h, hlen, hsent⟩ := blocked_run Loop.intMax (Nat.le_refl _)
    rw [run_byteWrites]
    obtain ⟨hhead, hnone, hsome⟩ := blocked_overlong h hlen hsent
    generalize step blocked (run blocked (opened 3) (byteWrites Loop.intMax))
      (.write (.bytes [0x41])) = c at hhead hnone hsome ⊢
    dsimp only
    rintro ⟨l', hlinked, hbytes⟩
    rw [hhead] at hlinked
    have hnil : l' = [] := hlinked.unique rfl
    rw [hnone, hnil] at hbytes
    exact hsome hbytes.symm

end Conn

end Sevent.Tcp
