import Sevent.Http.Reached
import Sevent.Http.Requests

-- What a call of sevent_http_conn_respond leaves in the write queue.
namespace Sevent.Http

open Sevent.Stream (WriteRes)

-- The bytes that the stream has taken.
def Event.queued : Event → Option Bytes
  | .written data res => if res.ret = Err.success then some data else none
  | _ => none

def queued (log : List Event) : List Bytes := log.filterMap Event.queued

theorem queued_unseen : Unseen Event.queued where
  state := fun _ _ => rfl
  completing := fun _ _ => rfl
  shutdown := rfl
  posted := fun _ _ => rfl
  timerRegister := fun _ _ => rfl
  timerUnregister := rfl
  onConnClose := rfl
  freed := rfl

@[simp] theorem queued_append (a b : List Event) : queued (a ++ b) = queued a ++ queued b :=
  List.filterMap_append

theorem queued_refused (data : Bytes) {res : WriteRes} (h : res.ret ≠ Err.success) :
    queued [.written data res] = [] :=
  List.filterMap_cons_none (if_neg h)

theorem queued_taken (data : Bytes) {res : WriteRes} (h : res.ret = Err.success) :
    queued [.written data res] = [data] :=
  List.filterMap_cons_some (if_pos h)

-- ---- one write ----

-- The write fails and nothing else happens.
def NotQueued (res : WriteRes) : Prop := res = .nomem ∨ res = .inval

theorem NotQueued.ret {res : WriteRes} (h : NotQueued res) : res.ret ≠ 0 := by
  rcases h with rfl | rfl <;> decide

variable {env : Env} {c : Conn}

theorem terminate_closed (hlive : c.dead = false) : (c.terminate env).state = .closed := by
  unfold Conn.terminate
  rw [if_neg (by rw [hlive]; decide)]
  dsimp only
  rw [Conn.free_state]
  exact idleStop_state _

theorem streamWrite_gone (hstream : c.stream = false) (data : Bytes) :
    c.streamWrite env data = (Err.inval, c) := by
  unfold Conn.streamWrite
  rw [if_pos (by rw [hstream]; decide)]

theorem streamWrite_ok (hstream : c.stream = true) (data : Bytes) (h : env.write c.log = .ok) :
    c.streamWrite env data = (Err.success, c.emit (.written data .ok)) := by
  unfold Conn.streamWrite
  rw [if_neg (by rw [hstream]; decide), h]
  rfl

theorem streamWrite_refused (hstream : c.stream = true) (data : Bytes)
    (h : NotQueued (env.write c.log)) :
    c.streamWrite env data = ((env.write c.log).ret, c.emit (.written data (env.write c.log))) := by
  unfold Conn.streamWrite
  rw [if_neg (by rw [hstream]; decide)]
  rcases h with h | h <;> rw [h]

-- A write that fails for the socket ends the connection.
theorem streamWrite_ended (hstream : c.stream = true) (hlive : c.dead = false) (hreleased : c.released = false)
    (data : Bytes) (hok : env.write c.log ≠ .ok) (href : ¬ NotQueued (env.write c.log)) :
    (c.streamWrite env data).2.state = .closed := by
  have hended : ∀ res : WriteRes, (if (c.emit (.written data res)).released then c.emit (.written data res)
      else (c.emit (.written data res)).terminate env).state = .closed := by
    intro res
    have hreleased : (c.emit (.written data res)).released = false := hreleased
    rw [if_neg (by rw [hreleased]; decide)]
    exact terminate_closed hlive
  unfold Conn.streamWrite
  rw [if_neg (by rw [hstream]; decide)]
  dsimp only
  split
  · exact hended _
  · exact hended _
  · rename_i hfailed htorn
    cases hres : env.write c.log with
    | ok => exact absurd hres hok
    | nomem => exact absurd (.inl hres) href
    | inval => exact absurd (.inr hres) href
    | failed err => exact absurd hres (hfailed err)
    | torn accepted => exact absurd hres (htorn accepted)

theorem streamWrite_closed (h : c.state = .closed) (data : Bytes) : (c.streamWrite env data).2.state = .closed := by
  rcases Conn.streamWrite_state env c data with hs | hs
  · exact hs.trans h
  · exact hs

-- ---- no half response ----

-- A response that fails leaves nothing behind, or the connection is gone.
def NoHalf (c : Conn) (r : Int × Conn) : Prop :=
  r.1 ≠ Err.success → queued r.2.log = queued c.log ∧ r.2.state = c.state ∨ r.2.state = .closed

-- The head is queued, and then there is no memory for the body, or it is refused.
structure HalfWritten (env : Env) (c : Conn) (resp : Response) : Prop where
  state : c.state = .request ∨ c.state = .awaitResp
  wrote : c.wrote = false
  stream : c.stream = true
  alloc : env.alloc c.log = true
  body : 0 < resp.bodyLen
  head : ∃ text head, respondText resp = some text ∧
    respondHead resp text (resp.close || !c.reqKeepAlive) = some head ∧
    env.write (c.log ++ [.alloc true]) = .ok ∧
    NotQueued (env.write (c.log ++ [.alloc true, .written head .ok]))

theorem respondBuild_noText {resp : Response} (htext : respondText resp = none) :
    c.respondBuild env resp false = (Err.inval, false, c) := by
  unfold Conn.respondBuild
  rw [htext]

theorem respondBuild_noMemory {resp : Response} {text : Bytes} (htext : respondText resp = some text)
    (halloc : env.alloc c.log = false) :
    c.respondBuild env resp false = (Err.nomem, false, c.emit (.alloc false)) := by
  unfold Conn.respondBuild
  rw [htext]
  dsimp only
  rw [halloc, if_pos (by decide)]

theorem respondBuild_noHead {resp : Response} {text : Bytes} (htext : respondText resp = some text)
    (halloc : env.alloc c.log = true) (hhead : respondHead resp text (resp.close || !c.reqKeepAlive) = none) :
    c.respondBuild env resp false = (Err.inval, false, c.emit (.alloc true)) := by
  have hkeep : (c.emit (.alloc true)).reqKeepAlive = c.reqKeepAlive := rfl
  unfold Conn.respondBuild
  rw [htext]
  dsimp only
  rw [halloc, if_neg (by decide), hkeep, Bool.or_false, hhead]

theorem respondBuild_head {text head : Bytes} {resp : Response} {internalClose : Bool} {rc rc' : Int} {d d' : Conn}
    (htext : respondText resp = some text) (halloc : env.alloc c.log = true)
    (hhead : respondHead resp text (resp.close || internalClose || !c.reqKeepAlive) = some head)
    (hwrite : (c.emit (.alloc true)).streamWrite env head = (rc, d))
    (hbody : d.streamWrite env ((resp.body.getD []).take resp.bodyLen) = (rc', d')) :
    c.respondBuild env resp internalClose =
      if rc ≠ 0 then (Err.write, false, d)
      else if resp.bodyLen > 0 then
        if rc' ≠ 0 then (Err.write, false, d')
        else (Err.success, resp.close || internalClose || !c.reqKeepAlive, d')
      else (Err.success, resp.close || internalClose || !c.reqKeepAlive, d) := by
  have hkeep : (c.emit (.alloc true)).reqKeepAlive = c.reqKeepAlive := rfl
  unfold Conn.respondBuild
  rw [htext]
  dsimp only
  rw [halloc, if_neg (by decide), hkeep, hhead]
  dsimp only
  rw [hwrite]
  dsimp only
  rw [hbody]

theorem respondBuild_noHalf (hstate : c.state = .request ∨ c.state = .awaitResp) (hwrote : c.wrote = false)
    (hreleased : c.released = false) (resp : Response) (hhalf : ¬ HalfWritten env c resp) :
    NoHalf c ((c.respondBuild env resp false).1, (c.respondBuild env resp false).2.2) := by
  have hlive : c.dead = false := by rcases hstate with h | h <;> rw [Conn.dead, h] <;> rfl
  cases htext : respondText resp with
  | none =>
      rw [respondBuild_noText htext]
      exact fun _ => .inl ⟨rfl, rfl⟩
  | some text =>
  -- the head area is allocated, and nothing is written yet
  have hsame : ∀ ok, queued (c.emit (.alloc ok)).log = queued c.log := by
    intro ok
    rw [Conn.emit, queued_append]
    exact List.append_nil _
  by_cases halloc : env.alloc c.log = true
  swap
  · rw [respondBuild_noMemory htext (eq_false_of_ne_true halloc)]
    exact fun _ => .inl ⟨hsame false, rfl⟩
  have hclose : (resp.close || false || !c.reqKeepAlive) = (resp.close || !c.reqKeepAlive) := by
    rw [Bool.or_false]
  cases hhead : respondHead resp text (resp.close || !c.reqKeepAlive) with
  | none =>
      rw [respondBuild_noHead htext halloc hhead]
      exact fun _ => .inl ⟨hsame true, rfl⟩
  | some head =>
  rw [← hclose] at hhead
  by_cases hstream : (c.emit (.alloc true)).stream = true
  swap
  · rw [respondBuild_head htext halloc hhead (streamWrite_gone (eq_false_of_ne_true hstream) head) rfl,
      if_pos (by decide)]
    exact fun _ => .inl ⟨hsame true, rfl⟩
  by_cases href : NotQueued (env.write (c.emit (.alloc true)).log)
  · have hlog : queued ((c.emit (.alloc true)).emit
        (.written head (env.write (c.emit (.alloc true)).log))).log = queued c.log := by
      rw [Conn.emit, queued_append, queued_refused head href.ret, List.append_nil]
      exact hsame true
    rw [respondBuild_head htext halloc hhead (streamWrite_refused hstream head href) rfl, if_pos href.ret]
    exact fun _ => .inl ⟨hlog, rfl⟩
  by_cases hok : env.write (c.emit (.alloc true)).log = .ok
  · by_cases hbody : 0 < resp.bodyLen
    · -- the head is queued: the body is not refused
      have hdone : ¬ NotQueued (env.write ((c.emit (.alloc true)).emit (.written head .ok)).log) := by
        intro hno
        refine hhalf ⟨hstate, hwrote, hstream, halloc, hbody, text, head, htext, hclose ▸ hhead, hok, ?_⟩
        rwa [Conn.emit, Conn.emit, List.append_assoc] at hno
      by_cases hok' : env.write ((c.emit (.alloc true)).emit (.written head .ok)).log = .ok
      · rw [respondBuild_head htext halloc hhead (streamWrite_ok hstream head hok)
          (streamWrite_ok (c := (c.emit (.alloc true)).emit (.written head .ok)) hstream _ hok'),
          if_neg (by decide), if_pos hbody, if_neg (by decide)]
        exact fun hrc => absurd rfl hrc
      · have hclosed := streamWrite_ended (c := (c.emit (.alloc true)).emit (.written head .ok)) hstream
          hlive hreleased ((resp.body.getD []).take resp.bodyLen) hok' hdone
        rw [respondBuild_head htext halloc hhead (streamWrite_ok hstream head hok) rfl, if_neg (by decide),
          if_pos hbody]
        split
        · exact fun _ => .inr hclosed
        · exact fun _ => .inr hclosed
    · rw [respondBuild_head htext halloc hhead (streamWrite_ok hstream head hok) rfl, if_neg (by decide),
        if_neg hbody]
      exact fun hrc => absurd rfl hrc
  · have hclosed := streamWrite_ended hstream hlive hreleased head hok href
    have hstill := @streamWrite_closed env _ hclosed ((resp.body.getD []).take resp.bodyLen)
    rw [respondBuild_head htext halloc hhead rfl rfl]
    split
    · exact fun _ => .inr hclosed
    split
    · split
      · exact fun _ => .inr hstill
      · exact fun _ => .inr hstill
    · exact fun _ => .inr hclosed

theorem respondBuild_half {resp : Response} (h : HalfWritten env c resp) :
    ∃ head, c.respondBuild env resp false = (Err.write, false, ((c.emit (.alloc true)).emit (.written head .ok)).emit
      (.written ((resp.body.getD []).take resp.bodyLen)
        (env.write (c.log ++ [.alloc true, .written head .ok])))) := by
  obtain ⟨text, head, htext, hhead, hok, href⟩ := h.head
  have hstream : (c.emit (.alloc true)).stream = true := h.stream
  have hlog : ((c.emit (.alloc true)).emit (.written head .ok)).log = c.log ++ [.alloc true, .written head .ok] :=
    List.append_assoc _ _ _
  rw [← hlog] at href
  refine ⟨head, ?_⟩
  rw [respondBuild_head htext h.alloc (by rwa [Bool.or_false]) (streamWrite_ok hstream head hok)
    (streamWrite_refused (c := (c.emit (.alloc true)).emit (.written head .ok)) hstream _ href),
    if_neg (by decide), if_pos h.body, if_pos href.ret, hlog]

theorem respond_eq (hstate : c.state = .request ∨ c.state = .awaitResp) (hwrote : c.wrote = false)
    (resp : Response) {rc : Int} {close : Bool} {d : Conn} (hbuild : c.respondBuild env resp false = (rc, close, d)) :
    c.respond env resp = if rc ≠ 0 then (rc, d) else
      (Err.success, { d with closePending := d.closePending || close }.responseComplete env
        (d.state == ConnState.awaitResp)) := by
  have hready : ¬ (c.state ≠ .request ∧ c.state ≠ .awaitResp) := by tauto
  unfold Conn.respond
  rw [if_neg hready, if_neg (by rw [hwrote]; decide), hbuild]

-- A response that fails leaves nothing in the queue, except when its head was queued and its
-- body was not.
theorem failed_respond_iff (env : Env) (recvCap : Nat) {c : Conn} (h : Reached env recvCap c)
    (resp : Response) : NoHalf c (c.respond env resp) ↔ ¬ HalfWritten env c resp := by
  constructor
  · intro hno hhalf
    obtain ⟨head, hbuild⟩ := respondBuild_half hhalf
    rw [respond_eq hhalf.state hhalf.wrote resp hbuild, if_pos (by decide)] at hno
    have hfailed : Err.write ≠ Err.success := by decide
    rcases hno hfailed with ⟨hqueued, -⟩ | hclosed
    · have hmore : (queued c.log).length < (queued (c.emit (.alloc true)).log ++
          queued [.written head .ok] ++ queued [.written ((resp.body.getD []).take resp.bodyLen)
            (env.write (c.log ++ [.alloc true, .written head .ok]))]).length := by
        rw [queued_taken head rfl, Conn.emit, queued_append]
        simp only [List.length_append, List.length_cons]
        omega
      rw [← queued_append, ← queued_append] at hmore
      exact absurd (congrArg List.length hqueued) (Nat.ne_of_gt hmore)
    · have hstate : c.state = .closed := hclosed
      rcases hhalf.state with hs | hs <;> exact absurd (hs.symm.trans hstate) (by decide)
  · intro hhalf
    by_cases hstate : c.state = .request ∨ c.state = .awaitResp
    swap
    · have hrefused : c.respond env resp = (Err.inval, c) := by
        unfold Conn.respond
        rw [if_pos (not_or.mp hstate)]
      rw [hrefused]
      exact fun _ => .inl ⟨rfl, rfl⟩
    by_cases hwrote : c.wrote = true
    · have hrefused : c.respond env resp = (Err.inval, c) := by
        unfold Conn.respond
        rw [if_neg (by tauto), if_pos hwrote]
      rw [hrefused]
      exact fun _ => .inl ⟨rfl, rfl⟩
    have hwrote : c.wrote = false := eq_false_of_ne_true hwrote
    have hreleased := h.orderly.notReleased fun hs => by rcases hstate with h | h <;> cases hs.symm.trans h
    have hbuild := respondBuild_noHalf hstate hwrote hreleased resp hhalf
    obtain ⟨rc, close, d, hd⟩ : ∃ rc close d, c.respondBuild env resp false = (rc, close, d) := ⟨_, _, _, rfl⟩
    rw [hd] at hbuild
    rw [respond_eq hstate hwrote resp hd]
    split
    · exact hbuild
    · exact fun hrc => absurd rfl hrc

-- A handler that answers later, over a stream that takes one write.
def oneWrite : Env :=
  { silent with write := fun log => if queued log = [] then .ok else .nomem }

def asked (env : Env) (bytes : Bytes) : Conn := (Conn.accepted 64).run env [.opened, .data bytes]

def helloResponse : Response :=
  { status := 200, text := none, close := false, body := some (ascii "hello"), bodyLen := 5, headers := [] }

theorem failed_respond_bare :
    NoHalf (asked oneWrite (ascii "GET / HTTP/1.1\r\n\r\n"))
        ((asked oneWrite (ascii "GET / HTTP/1.1\r\n\r\n")).respond oneWrite helloResponse) ↔
      ¬ HalfWritten oneWrite (asked oneWrite (ascii "GET / HTTP/1.1\r\n\r\n")) helloResponse :=
  failed_respond_iff oneWrite 64 (.run oneWrite 64 _) helloResponse

-- The head stays in the queue, and the same response can be tried again.
theorem head_without_body :
    ∃ c, Reached oneWrite 64 c ∧ ¬ NoHalf c (c.respond oneWrite helloResponse) ∧
      (c.respond oneWrite helloResponse).1 = Err.write ∧
      (c.respond oneWrite helloResponse).2.state = .awaitResp ∧
      queued (c.respond oneWrite helloResponse).2.log =
        [ascii "HTTP/1.1 200 OK\r\nContent-Length: 5\r\n\r\n"] := by
  refine ⟨asked oneWrite (ascii "GET / HTTP/1.1\r\n\r\n"), .run oneWrite 64 _, ?_⟩
  unfold NoHalf
  decide +kernel

end Sevent.Http
