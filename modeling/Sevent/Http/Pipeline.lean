import Sevent.Http.Stability
import Sevent.Http.Untouched

namespace Sevent.Http

variable {cap : Nat}

-- A request of the kind the pipeline is made of, with the message the parser makes of it.
structure ValidRequest (cap : Nat) where
  bytes : Bytes
  msg : Msg
  parses : parse bytes = .complete msg
  whole : msg.consumed = bytes.length
  keepAlive : msg.keepAlive = true
  plain : msg.upgrade = false
  fits : bytes.length ≤ cap

def ValidRequest.request (r : ValidRequest cap) : Request := r.msg.view r.bytes

def wire (reqs : List (ValidRequest cap)) : Bytes := reqs.flatMap (·.bytes)

@[simp] theorem wire_cons (r : ValidRequest cap) (rest : List (ValidRequest cap)) :
    wire (r :: rest) = r.bytes ++ wire rest := rfl

@[simp] theorem wire_append (a b : List (ValidRequest cap)) : wire (a ++ b) = wire a ++ wire b :=
  List.flatMap_append

-- The layers below work, and on_request has responded when it returns.
structure Answers (env : Env) : Prop where
  write : ∀ log, env.write log = .ok
  post : ∀ log, env.post log = true
  handler : ∃ cb, env.onRequest = some cb ∧ ∀ c : Conn, c.state = .request → c.stream = true →
    c.reqKeepAlive = true → c.closePending = false → c.wrote = false →
    (c.calls env (cb c.log)).state = .parsing

-- The buffer without its first `n` complete messages.
def dropRequests : Nat → Bytes → Bytes
  | 0, buf => buf
  | n + 1, buf =>
      match parse buf with
      | .complete m => dropRequests n (buf.drop m.consumed)
      | _ => buf

-- There is room for the push once the requests that may be served first have been served.
def RoomFor (c : Conn) (data : Bytes) : Prop :=
  data.length + (dropRequests (overflowProcessLimit * processBudget) c.recv).length ≤ c.recvCap

instance (c : Conn) (data : Bytes) : Decidable (RoomFor c data) :=
  inferInstanceAs (Decidable (_ ≤ _))

theorem dropRequests_length_le (n : Nat) (buf : Bytes) :
    (dropRequests n buf).length ≤ buf.length := by
  induction n generalizing buf with
  | zero => exact Nat.le_refl _
  | succ n ih =>
      rw [dropRequests]
      split
      · exact (ih _).trans (by simp)
      · exact Nat.le_refl _

theorem dropRequests_add (m n : Nat) (buf : Bytes) :
    dropRequests (m + n) buf = dropRequests n (dropRequests m buf) := by
  induction m generalizing buf with
  | zero => simp [dropRequests]
  | succ m ih =>
      rw [Nat.succ_add, dropRequests, dropRequests]
      cases hp : parse buf with
      | complete msg => exact ih _
      | more => cases n <;> simp [dropRequests, hp]
      | error => cases n <;> simp [dropRequests, hp]

theorem dropRequests_antitone {m n : Nat} (h : m ≤ n) (buf : Bytes) :
    (dropRequests n buf).length ≤ (dropRequests m buf).length := by
  obtain ⟨k, rfl⟩ := Nat.exists_eq_add_of_le h
  rw [dropRequests_add]
  exact dropRequests_length_le _ _

theorem Msg.view_append {buf : Bytes} {m : Msg} (h : parse buf = .complete m) (s : Bytes) :
    m.view (buf ++ s) = m.view buf := by
  obtain ⟨hmeth, htarget, hheaders, hbody⟩ := parse_slices h
  have hmap : ∀ o : Option Slice, (∀ sl, o = some sl → sl.off + sl.len ≤ buf.length) →
      o.map (·.of (buf ++ s)) = o.map (·.of buf) := by
    intro o ho
    cases o with
    | none => rfl
    | some sl => simp [Slice.of_append sl buf s (.inr (ho sl rfl))]
  unfold Msg.view
  rw [hmap _ hmeth, hmap _ htarget, Slice.of_append _ _ _ hheaders, Slice.of_append _ _ _ (.inr hbody)]

-- What a buffer that holds a part of the pipeline looks like to the parser.
theorem buffer_cases (todo : List (ValidRequest cap)) (recv : Bytes) (hpre : recv <+: wire todo)
    (hne : recv ≠ []) :
    (∃ r rest tail, todo = r :: rest ∧ recv = r.bytes ++ tail ∧ tail <+: wire rest ∧
      parse recv = .complete r.msg ∧ r.msg.view recv = r.request) ∨
    ∃ r rest, todo = r :: rest ∧ parse recv = .more ∧ recv.length < r.bytes.length := by
  cases todo with
  | nil => exact absurd (List.prefix_nil.mp hpre) hne
  | cons r rest =>
      rw [wire_cons] at hpre
      by_cases hlen : r.bytes.length ≤ recv.length
      · obtain ⟨tail, rfl⟩ :=
          List.prefix_of_prefix_length_le (List.prefix_append r.bytes (wire rest)) hpre hlen
        refine .inl ⟨r, rest, tail, rfl, rfl, ?_, parse_complete_append r.parses tail,
          Msg.view_append r.parses tail⟩
        exact (List.prefix_append_right_inj _).mp hpre
      · obtain ⟨q, hq⟩ := List.prefix_of_prefix_length_le hpre
          (List.prefix_append r.bytes (wire rest)) (by omega)
        refine .inr ⟨r, rest, rfl, ?_, by omega⟩
        refine parse_proper_prefix (m := r.msg) (q := q) (by rw [hq]; exact r.parses)
          (by rw [hq]; exact r.whole) ?_
        rintro rfl
        rw [List.append_nil] at hq
        rw [hq] at hlen
        exact hlen (Nat.le_refl _)

-- `c'` is `c` after the requests of `done` at the head of its buffer have been answered.
structure Served (done : List (ValidRequest cap)) (c c' : Conn) : Prop where
  recv : c.recv = wire done ++ c'.recv
  requests : requests c'.log = requests c.log ++ done.map ValidRequest.request
  state : c'.state = .parsing
  recvCap : c'.recvCap = c.recvCap
  stream : c'.stream = c.stream
  released : c'.released = c.released
  posts : c.posts <+: c'.posts
  tasks : ∀ p ∈ c'.posts, p ∈ c.posts ∨ p = .process
  shutdown : .shutdown ∈ c'.log → .shutdown ∈ c.log

namespace Served

theorem refl {c : Conn} (h : c.state = .parsing) : Served ([] : List (ValidRequest cap)) c c :=
  ⟨rfl, by simp, h, rfl, rfl, rfl, List.prefix_refl _, fun _ h => .inl h, id⟩

theorem trans {d d' : List (ValidRequest cap)} {a b c : Conn} (h : Served d a b)
    (h' : Served d' b c) : Served (d ++ d') a c where
  recv := by rw [h.recv, h'.recv, wire_append, List.append_assoc]
  requests := by rw [h'.requests, h.requests, List.map_append, List.append_assoc]
  state := h'.state
  recvCap := h'.recvCap.trans h.recvCap
  stream := h'.stream.trans h.stream
  released := h'.released.trans h.released
  posts := h.posts.trans h'.posts
  tasks := fun p hp => (h'.tasks p hp).elim (h.tasks p) .inr
  shutdown := h.shutdown ∘ h'.shutdown

theorem of_untouched {c c' : Conn} (h : Untouched c c') (hs : c'.state = .parsing) :
    Served ([] : List (ValidRequest cap)) c c' :=
  ⟨by simp [wire, h.recv], by simp [h.requests], hs, h.recvCap, h.stream, h.released, h.posts,
    h.tasks, h.shutdown⟩

end Served

-- The next wait for input is justified: no complete request is left in the buffer.
def Waiting (recv : Bytes) : Prop := recv = [] ∨ parse recv = .more

section

variable {env : Env} (henv : Answers env)

include henv

-- One turn of the loop on a buffer that starts with a whole request.
theorem serve_one (c : Conn) (r : ValidRequest cap) (tail : Bytes) (hstream : c.stream = true)
    (hrecv : c.recv = r.bytes ++ tail) :
    ∃ c1, (c.begin r.msg).dispatch env r.msg = (false, c1) ∧ c1.state = .parsing ∧
      Served [r] c (c1.requestAfterCallback env r.msg.consumed) := by
  obtain ⟨cb, hcb, hans⟩ := henv.handler
  let c0 := (c.begin r.msg).emit (.onRequest (r.msg.view c.recv))
  have hparsing : (c0.calls env (cb c0.log)).state = .parsing :=
    hans c0 rfl hstream r.keepAlive (by simp [c0, Conn.begin, Conn.emit, r.keepAlive]) rfl
  have halive : (c0.calls env (cb c0.log)).dying = false := by simp [Conn.dying, hparsing]
  obtain ⟨hu, -⟩ := untouched_calls henv.write henv.post c0 (cb c0.log) halive
  refine ⟨c0.calls env (cb c0.log), ?_, hparsing, ?_⟩
  · simp only [Conn.dispatch, r.plain, hcb]
    rfl
  · generalize c0.calls env (cb c0.log) = c1 at hparsing hu ⊢
    have hview : r.msg.view c.recv = r.request := by
      rw [hrecv]
      exact Msg.view_append r.parses tail
    simp only [Conn.requestAfterCallback, hparsing, true_or, if_true]
    refine ⟨?_, ?_, rfl, hu.recvCap, hu.stream, hu.released, hu.posts, hu.tasks, ?_⟩
    · simp only [hu.recv, wire_cons]
      simp [c0, Conn.begin, Conn.emit, Conn.stateSet, hrecv, r.whole, wire]
    · rw [hu.requests]
      simp [c0, Conn.begin, Conn.emit, Conn.stateSet, requests, hview]
    · intro h
      simpa [c0, Conn.begin, Conn.emit, Conn.stateSet] using hu.shutdown h

theorem httpProcess_served (n : Nat) (c : Conn) (todo : List (ValidRequest cap))
    (hs : c.state = .parsing) (hstream : c.stream = true) (hcap : c.recvCap = cap)
    (hpre : c.recv <+: wire todo) :
    ∃ done rest, todo = done ++ rest ∧ Served done c (c.httpProcess env n) ∧
      (c.httpProcess env n).recv <+: wire rest ∧
      (c.httpProcess env n).recv = dropRequests n c.recv ∧
      ((c.httpProcess env n).posts = [] → Waiting (c.httpProcess env n).recv) ∧
      (0 < n → done = [] → c.httpProcess env n = c) := by
  have halive : c.dying = false := by simp [Conn.dying, hs]
  induction n generalizing c todo with
  | zero =>
      unfold Conn.httpProcess
      by_cases hnil : c.recv = []
      · simp only [hnil, true_or, if_true]
        exact ⟨[], todo, rfl, .refl hs, List.nil_prefix, rfl, fun _ => .inl rfl, by simp⟩
      · obtain ⟨hok, hu, hstate, hposts⟩ := untouched_post henv.post c
        simp only [hnil, halive, hs, ne_eq, not_true_eq_false, or_false, Bool.false_eq_true,
          if_false, hok, if_true]
        refine ⟨[], todo, rfl, .of_untouched hu (hstate.trans hs), ?_, hu.recv,
          fun h => absurd h hposts, by simp⟩
        rw [hu.recv]
        exact hpre
  | succ n ih =>
      unfold Conn.httpProcess
      by_cases hnil : c.recv = []
      · simp only [hnil, true_or, if_true]
        exact ⟨[], todo, rfl, .refl hs, List.nil_prefix, rfl, fun _ => .inl rfl, by simp⟩
      · simp only [hnil, halive, hs, ne_eq, not_true_eq_false, or_false, Bool.false_eq_true,
          if_false]
        rcases buffer_cases todo c.recv hpre hnil with
          ⟨r, rest, tail, rfl, hrecv, htail, hparse, -⟩ | ⟨r, rest, rfl, hparse, hshort⟩
        · obtain ⟨c1, hdisp, hc1, hone⟩ := serve_one henv c r tail hstream hrecv
          have hc1alive : c1.dying = false := by simp [Conn.dying, hc1]
          have hrest : (c1.requestAfterCallback env r.msg.consumed).recv = tail := by
            have hone' := hone.recv
            rw [hrecv] at hone'
            simpa [wire] using hone'.symm
          obtain ⟨done, rest', rfl, hserved, hpre', hdrop, hwait, -⟩ :=
            ih (c1.requestAfterCallback env r.msg.consumed) rest hone.state
              (hone.stream.trans hstream) (hone.recvCap.trans hcap) (by rw [hrest]; exact htail)
              (by simp [Conn.dying, hone.state])
          simp only [hparse, hdisp, hc1alive, Bool.false_eq_true, if_false, hone.state, if_true]
          refine ⟨r :: done, rest', rfl, hone.trans hserved, hpre', ?_, hwait, by simp⟩
          rw [hdrop, hrest]
          simp only [dropRequests, hparse]
          rw [hrecv, r.whole, List.drop_left]
        · -- the buffer is not full: the request it is a part of fits into it
          have hroom : ¬ c.recv.length ≥ c.recvCap := by
            have := r.fits
            omega
          simp only [hparse, hroom, if_false]
          exact ⟨[], r :: rest, rfl, .refl hs, hpre, by simp [dropRequests, hparse],
            fun _ => .inr hparse, by simp⟩

-- The rounds that make room stop when there is room, when nothing is left, or at the limit.
theorem overflowProcess_served (len k : Nat) (c : Conn) (todo : List (ValidRequest cap))
    (hs : c.state = .parsing) (hstream : c.stream = true) (hcap : c.recvCap = cap)
    (hpre : c.recv <+: wire todo) :
    ∃ done rest, todo = done ++ rest ∧ Served done c (c.overflowProcess env len k) ∧
      (c.overflowProcess env len k).recv <+: wire rest ∧
      ∃ j ≤ k, (c.overflowProcess env len k).recv = dropRequests (j * processBudget) c.recv ∧
        (len ≤ cap - (c.overflowProcess env len k).recv.length ∨
          (c.overflowProcess env len k).recv = [] ∨ j = k) := by
  induction k generalizing c todo with
  | zero =>
      exact ⟨[], todo, rfl, .refl hs, hpre, 0, Nat.le_refl _, by simp [dropRequests, Conn.overflowProcess],
        .inr (.inr rfl)⟩
  | succ k ih =>
      have halive : c.dying = false := by simp [Conn.dying, hs]
      unfold Conn.overflowProcess
      by_cases hmore : c.recv ≠ [] ∧ len > c.recvCap - c.recv.length
      · obtain ⟨done, rest, rfl, hserved, hpre', hdrop, -, -⟩ :=
          httpProcess_served henv processBudget c todo hs hstream hcap hpre
        obtain ⟨done', rest', rfl, hserved', hpre'', j, hj, hdrop', hend⟩ :=
          ih (c.httpProcess env processBudget) rest hserved.state (hserved.stream.trans hstream)
            (hserved.recvCap.trans hcap) hpre'
        simp only [halive, Bool.not_false, hs, hmore, ne_eq, not_false_eq_true, and_self, if_true]
        refine ⟨done ++ done', rest', by simp, hserved.trans hserved', hpre'', j + 1, by omega, ?_,
          hend.imp_right (.imp_right (by omega))⟩
        rw [hdrop', hdrop, ← dropRequests_add]
        congr 1
        rw [Nat.succ_mul, Nat.add_comm]
      · have hstop : ¬ (!c.dying ∧ c.state = .parsing ∧ c.recv ≠ [] ∧
            len > c.recvCap - c.recv.length) := fun h => hmore h.2.2
        rw [if_neg hstop]
        refine ⟨[], todo, rfl, .refl hs, hpre, 0, Nat.zero_le _, by simp [dropRequests], ?_⟩
        by_cases hnil : c.recv = []
        · exact .inr (.inl hnil)
        · left
          rw [← hcap]
          by_contra hlen
          exact hmore ⟨hnil, by omega⟩

end

-- The requests of `done` have been answered and those of `todo` have not, after the bytes
-- `pushed`.
structure Backlog (done todo : List (ValidRequest cap)) (pushed : Bytes) (c : Conn) : Prop where
  pushed : pushed = wire done ++ c.recv
  recv : c.recv <+: wire todo
  requests : requests c.log = done.map ValidRequest.request
  state : c.state = .parsing
  stream : c.stream = true
  released : c.released = false
  recvCap : c.recvCap = cap
  size : c.recv.length ≤ cap
  tasks : ∀ p ∈ c.posts, p = .process
  shutdown : .shutdown ∉ c.log

-- Between callbacks a complete request is left in the buffer only if a task is posted for it.
structure Pipelined (done todo : List (ValidRequest cap)) (pushed : Bytes) (c : Conn) : Prop
    extends Backlog done todo pushed c where
  waiting : c.posts = [] → Waiting c.recv

theorem Backlog.served {done d rest : List (ValidRequest cap)} {pushed : Bytes} {c c' : Conn}
    (h : Backlog done (d ++ rest) pushed c) (hs : Served d c c') (hpre : c'.recv <+: wire rest) :
    Backlog (done ++ d) rest pushed c' where
  pushed := by rw [h.pushed, hs.recv, wire_append, List.append_assoc]
  recv := hpre
  requests := by rw [hs.requests, h.requests, List.map_append]
  state := hs.state
  stream := hs.stream.trans h.stream
  released := hs.released.trans h.released
  recvCap := hs.recvCap.trans h.recvCap
  size := by
    have hle := h.size
    rw [hs.recv, List.length_append] at hle
    omega
  tasks := fun p hp => (hs.tasks p hp).elim (h.tasks p) id
  shutdown := fun hmem => h.shutdown (hs.shutdown hmem)

-- The server has given up the connection.
structure Shut (c : Conn) : Prop where
  state : c.state = .closing
  tasks : ∀ p ∈ c.posts, p = .process
  shutdown : .shutdown ∈ c.log

section

variable {env : Env} (henv : Answers env) {done todo : List (ValidRequest cap)} {pushed : Bytes}
  {c : Conn}

include henv

theorem backlog_process (h : Backlog done todo pushed c) :
    ∃ d rest, todo = d ++ rest ∧
      Pipelined (done ++ d) rest pushed (c.httpProcess env processBudget) ∧
      (d = [] → c.httpProcess env processBudget = c) := by
  obtain ⟨d, rest, rfl, hserved, hpre, -, hwait, hsame⟩ :=
    httpProcess_served henv processBudget c todo h.state h.stream h.recvCap h.recv
  exact ⟨d, rest, rfl, ⟨h.served hserved hpre, hwait⟩, hsame (by decide)⟩

theorem backlog_receive (h : Backlog done todo pushed c) (data : Bytes)
    (hpre : pushed ++ data <+: wire (done ++ todo)) (hroom : data.length ≤ cap - c.recv.length) :
    ∃ d rest, todo = d ++ rest ∧ Pipelined (done ++ d) rest (pushed ++ data) (c.receive env data) := by
  have hu := untouched_idleReset env { c with recv := c.recv ++ data }
  have hstate : ({ c with recv := c.recv ++ data }.idleReset env).state = .parsing := by
    rw [idleReset_state]
    exact h.state
  unfold Conn.receive
  simp only [hstate, if_true]
  generalize { c with recv := c.recv ++ data }.idleReset env = c1 at hu hstate ⊢
  have hback : Backlog done todo (pushed ++ data) c1 :=
    { pushed := by rw [hu.recv, h.pushed, List.append_assoc]
      recv := by
        rw [h.pushed, wire_append, List.append_assoc] at hpre
        rw [hu.recv]
        exact (List.prefix_append_right_inj _).mp hpre
      requests := hu.requests.trans h.requests
      state := hstate
      stream := hu.stream.trans h.stream
      released := hu.released.trans h.released
      recvCap := hu.recvCap.trans h.recvCap
      size := by
        have := h.size
        rw [hu.recv, List.length_append]
        omega
      tasks := fun p hp => (hu.tasks p hp).elim (h.tasks p) id
      shutdown := fun hmem => h.shutdown (hu.shutdown hmem) }
  obtain ⟨d, rest, htodo, hp, -⟩ := backlog_process henv hback
  exact ⟨d, rest, htodo, hp⟩

omit henv in
theorem shut_closeGraceful (h : Backlog done todo pushed c) : Shut c.closeGraceful := by
  have halive : c.dying = false := by simp [Conn.dying, h.state]
  have hstream : (c.stateSet .closing).stream = true := h.stream
  simp only [Conn.closeGraceful, halive, Bool.false_eq_true, if_false, hstream, if_true]
  exact ⟨rfl, h.tasks, by simp [Conn.emit]⟩

theorem pipelined_data (h : Pipelined done todo pushed c) (data : Bytes) (hlen : data.length ≤ cap)
    (hpre : pushed ++ data <+: wire (done ++ todo)) :
    (RoomFor c data → ∃ d rest, todo = d ++ rest ∧
      Pipelined (done ++ d) rest (pushed ++ data) (c.step env (.data data))) ∧
    (¬ RoomFor c data → Shut (c.step env (.data data))) := by
  have halive : c.dying = false := by simp [Conn.dying, h.state]
  have hstep : c.step env (.data data) = c.onData env data := by
    simp [Conn.step, h.stream, h.released, h.state]
  rw [hstep]
  unfold Conn.onData
  simp only [halive, Bool.false_eq_true, if_false, h.state, if_true]
  by_cases hover : data.length > c.recvCap - c.recv.length
  · rw [if_pos hover]
    obtain ⟨d, rest, rfl, hserved, hpre', j, hj, hdrop, hend⟩ :=
      overflowProcess_served henv data.length overflowProcessLimit c todo h.state h.stream h.recvCap
        h.recv
    have hback := h.toBacklog.served hserved hpre'
    generalize c.overflowProcess env data.length overflowProcessLimit = c1 at hserved hdrop hend hback ⊢
    have hfit : RoomFor c data ↔ data.length ≤ c1.recvCap - c1.recv.length := by
      have hsize := hback.size
      have hle := dropRequests_antitone (Nat.mul_le_mul_right processBudget hj) c.recv
      rw [← hdrop] at hle
      unfold RoomFor
      rw [h.recvCap, hback.recvCap]
      constructor
      · intro hroom
        rcases hend with hend | hend | rfl
        · exact hend
        · simpa [hend] using hlen
        · rw [← hdrop] at hroom
          omega
      · omega
    by_cases hroom : RoomFor c data
    · refine ⟨fun _ => ?_, fun hno => absurd hroom hno⟩
      have hr := hfit.mp hroom
      have halive1 : c1.dying = false := by simp [Conn.dying, hback.state]
      simp only [halive1, Bool.not_false, hback.state, hr, and_self, if_true]
      rw [hback.recvCap] at hr
      rw [← List.append_assoc] at hpre
      obtain ⟨d', rest', rfl, hp⟩ := backlog_receive henv hback data hpre hr
      exact ⟨d ++ d', rest', by simp, by rw [← List.append_assoc]; exact hp⟩
    · refine ⟨fun hyes => absurd hyes hroom, fun _ => ?_⟩
      have hno : ¬ (!c1.dying ∧ c1.state = .parsing ∧ data.length ≤ c1.recvCap - c1.recv.length) :=
        fun hall => hroom (hfit.mpr hall.2.2)
      rw [if_neg hno]
      exact shut_closeGraceful hback
  · rw [if_neg hover]
    have hr : data.length ≤ cap - c.recv.length := by
      rw [← h.recvCap]
      omega
    refine ⟨fun _ => backlog_receive henv h.toBacklog data hpre hr, fun hno => absurd ?_ hno⟩
    have hle := dropRequests_length_le (overflowProcessLimit * processBudget) c.recv
    have hsize := h.size
    unfold RoomFor
    rw [h.recvCap]
    omega

theorem pipelined_post (h : Pipelined done todo pushed c) :
    ∃ d rest, todo = d ++ rest ∧ Pipelined (done ++ d) rest pushed (c.step env .post) ∧
      (d = [] → (c.step env .post).posts = c.posts.tail) := by
  unfold Conn.step
  cases hposts : c.posts with
  | nil => exact ⟨[], todo, rfl, by simpa [hposts] using h, fun _ => by simp [hposts]⟩
  | cons p rest =>
      have hp : p = .process := h.tasks p (by simp [hposts])
      subst hp
      have hback : Backlog done todo pushed { c with posts := rest } :=
        { h.toBacklog with
          tasks := fun q hq => h.tasks q (by rw [hposts]; exact List.mem_cons_of_mem _ hq) }
      have halive : { c with posts := rest }.dying = false := by simp [Conn.dying, h.state]
      simp only [Conn.processPost, halive, Bool.false_eq_true, if_false]
      by_cases hnil : c.recv = []
      · rw [if_neg (not_not.mpr hnil)]
        exact ⟨[], todo, rfl, ⟨by rw [List.append_nil]; exact hback, fun _ => .inl hnil⟩, fun _ => rfl⟩
      · rw [if_pos hnil]
        obtain ⟨d, rest', rfl, hp, hsame⟩ := backlog_process henv hback
        exact ⟨d, rest', rfl, hp, fun hd => by rw [hsame hd]; rfl⟩

end

-- Pushes of at most `cap` bytes and posted tasks, in any order.
def OnlyTraffic (cap : Nat) (steps : List Step) : Prop :=
  ∀ s ∈ steps, s = .post ∨ ∃ d : Bytes, s = .data d ∧ d.length ≤ cap

def pushes (steps : List Step) : Bytes :=
  steps.flatMap fun s => match s with | .data d => d | _ => []

-- Every push of the run finds room when it arrives.
def RoomAlong (env : Env) : Conn → List Step → Prop
  | _, [] => True
  | c, s :: rest => (∀ d, s = .data d → RoomFor c d) ∧ RoomAlong env (c.step env s) rest

theorem shut_step {env : Env} {c : Conn} (h : Shut c) {s : Step}
    (hs : s = .post ∨ ∃ d : Bytes, s = .data d) : Shut (c.step env s) := by
  have hdying : c.dying = true := by simp [Conn.dying, h.state]
  rcases hs with rfl | ⟨d, rfl⟩
  · unfold Conn.step
    cases hposts : c.posts with
    | nil => exact h
    | cons p rest =>
        have hp : p = .process := h.tasks p (by simp [hposts])
        subst hp
        have hdying' : { c with posts := rest }.dying = true := hdying
        simp only [Conn.processPost, hdying', if_true]
        exact ⟨h.state, fun q hq => h.tasks q (by rw [hposts]; exact List.mem_cons_of_mem _ hq),
          h.shutdown⟩
  · have hkeep : c.onData env d = c := by rw [Conn.onData, if_pos hdying]
    simp only [Conn.step, hkeep, ite_self]
    exact h

theorem shut_run {env : Env} {c : Conn} (h : Shut c) (steps : List Step)
    (hsteps : OnlyTraffic cap steps) : Shut (c.run env steps) := by
  induction steps generalizing c with
  | nil => exact h
  | cons s rest ih =>
      refine ih (shut_step h ?_) fun s hs => hsteps s (List.mem_cons_of_mem _ hs)
      exact (hsteps s List.mem_cons_self).imp id fun ⟨d, hd, _⟩ => ⟨d, hd⟩

section

variable {env : Env} (henv : Answers env)

include henv

theorem pipelined_run (steps : List Step) (hsteps : OnlyTraffic cap steps)
    {done todo : List (ValidRequest cap)} {pushed : Bytes} {c : Conn}
    (h : Pipelined done todo pushed c) (hpre : pushed ++ pushes steps <+: wire (done ++ todo)) :
    (RoomAlong env c steps → ∃ d rest, todo = d ++ rest ∧
      Pipelined (done ++ d) rest (pushed ++ pushes steps) (c.run env steps)) ∧
    (¬ RoomAlong env c steps → Shut (c.run env steps)) := by
  induction steps generalizing done todo pushed c with
  | nil =>
      refine ⟨fun _ => ⟨[], todo, rfl, ?_⟩, fun hno => absurd trivial hno⟩
      simpa [pushes, Conn.run] using h
  | cons s rest ih =>
      have hrest : OnlyTraffic cap rest := fun s hs => hsteps s (List.mem_cons_of_mem _ hs)
      -- what the induction gives once this step has been made
      have next : ∀ d todo' pushed', todo = d ++ todo' → pushed' ++ pushes rest = pushed ++ pushes (s :: rest) →
          Pipelined (done ++ d) todo' pushed' (c.step env s) → (∀ b, s = .data b → RoomFor c b) →
          (RoomAlong env c (s :: rest) → ∃ d rest', todo = d ++ rest' ∧
            Pipelined (done ++ d) rest' (pushed ++ pushes (s :: rest)) (c.run env (s :: rest))) ∧
          (¬ RoomAlong env c (s :: rest) → Shut (c.run env (s :: rest))) := by
        rintro d todo' pushed' rfl hbytes hp hroom
        obtain ⟨hgo, hstop⟩ := ih hrest hp (by rw [hbytes, List.append_assoc]; exact hpre)
        constructor
        · intro hall
          obtain ⟨d', rest', rfl, hp'⟩ := hgo hall.2
          exact ⟨d ++ d', rest', by simp, by rw [← hbytes, ← List.append_assoc]; exact hp'⟩
        · exact fun hno => hstop fun hall => hno ⟨hroom, hall⟩
      rcases hsteps s List.mem_cons_self with rfl | ⟨data, rfl, hlen⟩
      · obtain ⟨d, todo', htodo, hp, -⟩ := pipelined_post henv h
        exact next d todo' pushed htodo rfl hp (by simp)
      · have hpre1 : pushed ++ data <+: wire (done ++ todo) := by
          refine List.IsPrefix.trans ?_ hpre
          simp [pushes]
        obtain ⟨hgo, hstop⟩ := pipelined_data henv h data hlen hpre1
        by_cases hroom : RoomFor c data
        · obtain ⟨d, todo', htodo, hp⟩ := hgo hroom
          refine next d todo' (pushed ++ data) htodo (by simp [pushes]) hp ?_
          rintro b ⟨⟩
          exact hroom
        · refine ⟨fun hall => absurd (hall.1 data rfl) hroom, fun _ => ?_⟩
          exact shut_run (hstop hroom) rest hrest

-- The posted continuations come to an end, with every complete request answered.
theorem pipelined_drain (n m : Nat) {done todo : List (ValidRequest cap)} {pushed : Bytes}
    {c : Conn} (h : Pipelined done todo pushed c) (hn : c.recv.length ≤ n)
    (hm : c.posts.length ≤ m) :
    ∃ k d rest, todo = d ++ rest ∧
      Pipelined (done ++ d) rest pushed (c.run env (List.replicate k .post)) ∧
      (c.run env (List.replicate k .post)).posts = [] := by
  induction n using Nat.strong_induction_on generalizing m done todo c with
  | _ n ihn =>
      induction m generalizing done todo c with
      | zero =>
          refine ⟨0, [], todo, rfl, by rw [List.append_nil]; exact h, ?_⟩
          exact List.length_eq_zero_iff.mp (Nat.le_zero.mp hm)
      | succ m ihm =>
          obtain ⟨d, rest, rfl, hp, hsame⟩ := pipelined_post henv h
          have hrecv : c.recv = wire d ++ (c.step env .post).recv := by
            have hbytes := h.pushed.symm.trans hp.pushed
            rw [wire_append, List.append_assoc] at hbytes
            exact List.append_cancel_left hbytes
          have hlen := congrArg List.length hrecv
          rw [List.length_append] at hlen
          obtain ⟨k, d', rest', rfl, hp', hnone⟩ : ∃ k d' rest', rest = d' ++ rest' ∧
              Pipelined (done ++ d ++ d') rest' pushed
                ((c.step env .post).run env (List.replicate k .post)) ∧
              ((c.step env .post).run env (List.replicate k .post)).posts = [] := by
            cases d with
            | nil =>
                refine ihm hp (by simp [wire] at hlen; omega) ?_
                rw [hsame rfl, List.length_tail]
                omega
            | cons r d =>
                have hpos : 0 < r.bytes.length := r.whole ▸ parse_consumed_pos r.parses
                rw [wire_cons, List.length_append] at hlen
                exact ihn (c.step env .post).recv.length (by omega) _ hp (Nat.le_refl _)
                  (Nat.le_refl _)
          refine ⟨k + 1, d ++ d', rest', by simp, ?_, hnone⟩
          rw [← List.append_assoc]
          exact hp'

end

-- An on_accept callback that does not reject the connection changes nothing that matters.
theorem untouched_onOpen {env : Env} (henv : Answers env) (c : Conn) (hrel : c.released = false)
    (hopen : (c.onOpen env).state = .parsing) : Untouched c (c.onOpen env) := by
  unfold Conn.onOpen at hopen ⊢
  simp only [hrel, Bool.false_eq_true, if_false] at hopen ⊢
  have hset : ∀ c' : Conn, Untouched c' ((c'.stateSet .parsing).idleReset env) := fun c' =>
    (untouched_stateSet _ _).trans (untouched_idleReset env _)
  cases hacc : env.onAccept with
  | none =>
      simp only [hacc] at hopen ⊢
      split
      · exact untouched_idleReset env c
      · exact hset c
  | some cb =>
      simp only [hacc] at hopen ⊢
      split
      · next hd =>
        rw [if_pos hd, idleReset_state] at hopen
        simp [Conn.dying, hopen] at hd
      · next hd =>
        obtain ⟨hcalls, -⟩ := untouched_calls henv.write henv.post _ _ (by simpa using hd)
        have hemit : Untouched c (c.emit .onAccept) :=
          .of_log rfl rfl (by simp) rfl rfl rfl rfl rfl
        exact (hemit.trans hcalls).trans (hset _)

-- The connection as its on_accept callback leaves it.
def opened (env : Env) (cap : Nat) : Conn := (Conn.accepted cap).step env .opened

theorem pipelined_opened {env : Env} (henv : Answers env) (reqs : List (ValidRequest cap))
    (hopen : (opened env cap).state = .parsing) : Pipelined [] reqs [] (opened env cap) := by
  have hu : Untouched (Conn.accepted cap) (opened env cap) := untouched_onOpen henv _ rfl hopen
  exact
    { pushed := by rw [hu.recv]; rfl
      recv := by rw [hu.recv]; exact List.nil_prefix
      requests := hu.requests
      state := hopen
      stream := hu.stream
      released := hu.released
      recvCap := hu.recvCap
      size := by rw [hu.recv]; exact Nat.zero_le _
      tasks := fun p hp => (hu.tasks p hp).elim (by simp [Conn.accepted]) id
      shutdown := fun hmem => by simpa [Conn.accepted] using hu.shutdown hmem
      waiting := fun _ => .inl hu.recv }

-- Pipelining over every segmentation and every schedule of the continuations: the connection
-- stays open exactly as long as each push finds room, and then on_request sees the requests
-- in order, each once, all of them when the continuations have run.
theorem pipeline_in_order (env : Env) (henv : Answers env) (cap : Nat)
    (hopen : (opened env cap).state = .parsing) (reqs : List (ValidRequest cap))
    (steps : List Step) (hsteps : OnlyTraffic cap steps) (hbytes : pushes steps <+: wire reqs) :
    (RoomAlong env (opened env cap) steps ↔ .shutdown ∉ ((opened env cap).run env steps).log) ∧
    (RoomAlong env (opened env cap) steps →
      ((opened env cap).run env steps).state = .parsing ∧
      requests ((opened env cap).run env steps).log <+: reqs.map ValidRequest.request ∧
      (pushes steps = wire reqs → ∃ k,
        (((opened env cap).run env steps).run env (List.replicate k .post)).posts = [] ∧
        (((opened env cap).run env steps).run env (List.replicate k .post)).state = .parsing ∧
        requests (((opened env cap).run env steps).run env (List.replicate k .post)).log =
          reqs.map ValidRequest.request)) := by
  obtain ⟨hgo, hstop⟩ := pipelined_run henv steps hsteps (pipelined_opened henv reqs hopen) hbytes
  refine ⟨⟨fun hroom => ?_, fun hno => ?_⟩, fun hroom => ?_⟩
  · obtain ⟨d, rest, htodo, hp⟩ := hgo hroom
    exact hp.shutdown
  · by_contra hroom
    exact hno (hstop hroom).shutdown
  · obtain ⟨d, rest, rfl, hp⟩ := hgo hroom
    refine ⟨hp.state, ?_, fun hall => ?_⟩
    · rw [hp.requests, List.nil_append, List.map_append]
      exact List.prefix_append _ _
    · obtain ⟨k, d', rest', rfl, hp', hnone⟩ := pipelined_drain henv _ _ hp (Nat.le_refl _) (Nat.le_refl _)
      refine ⟨k, hnone, hp'.state, ?_⟩
      -- all bytes are in and no task is left, so nothing is left to answer
      generalize ((opened env cap).run env steps).run env (List.replicate k .post) = c' at hp' hnone ⊢
      have hrecv : c'.recv = wire rest' := by
        have hbytes := hp'.pushed.symm.trans ((List.nil_append _).trans hall)
        simp only [List.nil_append, wire_append, List.append_assoc] at hbytes
        exact List.append_cancel_left (List.append_cancel_left hbytes)
      cases rest' with
      | nil => simpa using hp'.requests
      | cons r rest' =>
          rw [wire_cons] at hrecv
          rcases hp'.waiting hnone with hnil | hmore
          · have hpos : 0 < r.bytes.length := r.whole ▸ parse_consumed_pos r.parses
            have hlen := congrArg List.length (hrecv.symm.trans hnil)
            simp only [List.length_append, List.length_nil] at hlen
            omega
          · rw [hrecv, parse_complete_append r.parses] at hmore
            cases hmore

-- A handler that answers every request with one respond call.
def answering (resp : Response) : Env :=
  { onAccept := none, onRequest := some fun _ => [.respond resp], onUpgrade := none
    onConnClose := true, idleTimeoutMs := 0, write := fun _ => .ok, alloc := fun _ => true
    post := fun _ => true, timer := fun _ => true }

theorem answering_answers (resp : Response) (text head : Bytes)
    (htext : respondText resp = some text) (hhead : respondHead resp text false = some head)
    (hclose : resp.close = false) : Answers (answering resp) := by
  refine ⟨fun _ => rfl, fun _ => rfl, _, rfl, ?_⟩
  intro c₀ hs hstream hka hcp hw
  simp only [Conn.calls, List.foldl_cons, List.foldl_nil, Conn.call]
  change (c₀.emit (.called (.respond resp))).state = .request at hs
  change (c₀.emit (.called (.respond resp))).stream = true at hstream
  change (c₀.emit (.called (.respond resp))).reqKeepAlive = true at hka
  change (c₀.emit (.called (.respond resp))).closePending = false at hcp
  change (c₀.emit (.called (.respond resp))).wrote = false at hw
  generalize c₀.emit (.called (.respond resp)) = c at hs hstream hka hcp hw ⊢
  have hwrite : ∀ (c : Conn) (data : Bytes), c.stream = true →
      c.streamWrite (answering resp) data = (0, c.emit (.written data .ok)) := by
    intro c data hc
    simp [Conn.streamWrite, hc, answering, Stream.WriteRes.ret, Err.success]
  have halloc : ∀ log, (answering resp).alloc log = true := fun _ => rfl
  have hbuild : ∃ c', c.respondBuild (answering resp) resp false = (0, false, c') ∧
      c'.state = c.state ∧ c'.closePending = c.closePending := by
    unfold Conn.respondBuild
    simp only [htext, hclose, hka, Conn.emit, Bool.not_true, Bool.or_self, hhead]
    simp only [halloc, Bool.not_true, Bool.false_eq_true, if_false, hwrite, hstream, Conn.emit,
      ne_eq, not_true_eq_false]
    split
    · exact ⟨_, rfl, rfl, rfl⟩
    · exact ⟨_, rfl, rfl, rfl⟩
  obtain ⟨c', hb, hs', hcp'⟩ := hbuild
  simp only [Conn.respond, hs, hw, hb]
  simp [Conn.responseComplete, hcp', hcp, hs', hs, Conn.emit, Conn.stateSet]

def okResponse : Response :=
  { status := 200, text := none, close := false, body := some (ascii "hello"), bodyLen := 5
    headers := [] }

def getRequest (cap : Nat) (h : 18 ≤ cap) : ValidRequest cap where
  bytes := ascii "GET / HTTP/1.1\r\n\r\n"
  msg :=
    { start := ⟨false, .get, some ⟨0, 3⟩, some ⟨4, 1⟩, 0, true⟩, upgrade := false
      keepAlive := true, contentLength := 0, body := ⟨18, 0⟩, headers := ⟨16, 0⟩ }
  parses := by decide
  whole := by decide
  keepAlive := rfl
  plain := rfl
  fits := h

theorem answering_okResponse : Answers (answering okResponse) :=
  answering_answers okResponse (ascii "OK") (ascii "HTTP/1.1 200 OK\r\nContent-Length: 5\r\n\r\n")
    (by decide) (by decide) rfl

-- Three requests cut after 20 and 38 bytes, with room for 38.
def roomySteps : List Step :=
  let w := wire (List.replicate 3 (getRequest 38 (by decide)))
  [.data (w.take 20), .data ((w.drop 20).take 18), .data (w.drop 38)]

theorem pipeline_in_order_roomy :
    ((opened (answering okResponse) 38).run (answering okResponse) roomySteps).state = .parsing := by
  refine ((pipeline_in_order (answering okResponse) answering_okResponse 38 (by decide)
    (List.replicate 3 (getRequest 38 (by decide))) roomySteps ?_ (by decide)).2 ?_).1
  · intro s hs
    simp only [roomySteps, List.mem_cons, List.not_mem_nil, or_false] at hs
    rcases hs with rfl | rfl | rfl
    all_goals exact .inr ⟨_, rfl, by decide⟩
  · refine ⟨?_, ?_, ?_, trivial⟩
    all_goals
      rintro d ⟨⟩
      decide

-- The same three requests with room for 20 bytes, pushed 20 bytes at a time: two bytes of the
-- second request are buffered when the second push arrives.
def tightSteps : List Step :=
  let w := wire (List.replicate 3 (getRequest 20 (by decide)))
  [.data (w.take 20), .data ((w.drop 20).take 20), .data (w.drop 40)]

theorem pipeline_closed_by_segmentation :
    OnlyTraffic 20 tightSteps ∧
      pushes tightSteps = wire (List.replicate 3 (getRequest 20 (by decide))) ∧
      Answers (answering okResponse) ∧
      (requests ((opened (answering okResponse) 20).run (answering okResponse) tightSteps).log).length = 1 ∧
      ((opened (answering okResponse) 20).run (answering okResponse) tightSteps).state = .closing := by
  refine ⟨?_, by decide, answering_okResponse, by decide, by decide⟩
  intro s hs
  simp only [tightSteps, List.mem_cons, List.not_mem_nil, or_false] at hs
  rcases hs with rfl | rfl | rfl
  all_goals exact .inr ⟨_, rfl, by decide⟩

end Sevent.Http
