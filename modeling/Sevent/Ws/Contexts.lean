import Sevent.Ws.Agreement
import Sevent.Ws.Upgrade
import Sevent.Ws.Visit

-- The deflate contexts of a client and a server of the library that have shaken hands.
namespace Sevent.Ws

open Sevent.Stream (WriteRes)

variable {σ δ : Type} {env : Env σ δ}

-- ---- the bytes between two ends ----

-- What a write hands over. Of the bytes of a write that tears the stream down, any part may go out.
def handedOver (data : Bytes) : WriteRes → Bytes
  | .nomem => []
  | .inval => []
  | _ => data

def Event.sentBytes : Event → Bytes
  | .frameOut _ data res => handedOver data res
  | .requestOut _ data res => handedOver data res
  | .upgradeOut data res => handedOver data res
  | .refusalOut data res => handedOver data res
  | _ => []

def sent (log : List Event) : Bytes := log.flatMap Event.sentBytes

theorem sent_append (log l : List Event) : sent (log ++ l) = sent log ++ sent l := List.flatMap_append

theorem sent_mono {log log' : List Event} (h : log <+: log') : sent log <+: sent log' := by
  obtain ⟨l, rfl⟩ := h
  rw [sent_append]
  exact List.prefix_append _ _

def Input.bytes : Input → Bytes
  | .data d => d
  | _ => []

-- What comes up from the stream, which gives nothing before it is open.
def Conn.received (env : Env σ δ) : Conn σ δ → List Input → Bytes
  | _, [] => []
  | c, i :: rest => (if c.stream = .opened then i.bytes else []) ++ received env (Conn.step env c i) rest

-- ---- what the handshake leaves behind ----

-- Not an event of the handshake.
def Event.later : Event → Bool
  | .state .opened => false
  | .response _ => false
  | _ => true

theorem Event.later_of_plain {e : Event} (h : e.plain = true) : e.later = true := by
  cases e <;> first | rfl | cases h

theorem Event.later_of_traced {e : Event} (h : e.traced = true) : e.later = true := by
  cases e <;> first | rfl | cases h

-- What the handshake itself writes and reads, as an end of the given side.
def Event.uttered (client : Bool) : Event → Bool
  | .response _ => true
  | .frameOut _ _ _ => true
  | .upgradeOut _ _ => true
  | .refusalOut _ _ => true
  | .requestOut _ _ _ => !client
  | _ => false

theorem Event.unuttered_of_plain {e : Event} (h : e.plain = true) (client : Bool) :
    e.uttered client = false := by
  cases e <;> first | rfl | cases h

namespace Conn

theorem ended_routine (c : Conn σ δ) (n : Notice) :
    ∀ e ∈ shutEvents c ++ noticeEvents env n, e.later = true ∧ ∀ client, e.uttered client = false := by
  intro e he
  rcases List.mem_append.mp he with he | he
  · unfold shutEvents at he
    split at he <;> simp only [List.cons_append, List.nil_append, List.mem_cons, List.not_mem_nil,
      or_false] at he
    · rcases he with rfl | rfl | rfl <;> exact ⟨rfl, fun _ => rfl⟩
    · rcases he with rfl | rfl <;> exact ⟨rfl, fun _ => rfl⟩
  · unfold noticeEvents at he
    split at he
    · rw [List.mem_singleton.mp he]
      cases n <;> exact ⟨rfl, fun _ => rfl⟩
    · cases he

theorem close_routine (c : Conn σ δ) :
    ∀ e ∈ closeEvents c, e.later = true ∧ ∀ client, e.uttered client = false := by
  intro e he
  unfold closeEvents at he
  split at he <;> simp only [List.mem_cons, List.not_mem_nil, or_false] at he
  · rcases he with rfl | rfl | rfl | rfl <;> exact ⟨rfl, fun _ => rfl⟩
  · rcases he with rfl | rfl | rfl <;> exact ⟨rfl, fun _ => rfl⟩

-- A connection with the handshake behind it, for better or worse: it has gone from the log `L` on
-- without another one, with its contexts on the terms `T`.
structure Behind (L : List Event) (T : Option (Bool × Bool × Nat × Nat)) (c : Conn σ δ) : Prop where
  state : c.state ≠ .handshake
  stream : c.stream ≠ .opening
  opened : c.state = .opened → Opened L
  log : ∃ l, c.log = L ++ l ∧ ∀ e ∈ l, e.later = true
  terms : c.terms = T

section

variable {L : List Event} {T : Option (Bool × Bool × Nat × Nat)}

theorem Behind.grow {c c' : Conn σ δ} (h : Behind L T c) (l : List Event)
    (hstate : c'.state = c.state ∨ c'.state = .closing ∨ c'.state = .closed)
    (hstream : c'.stream = .opening → c.stream = .opening) (hlog : c'.log = c.log ++ l)
    (hl : ∀ e ∈ l, e.later = true) (hterms : c'.terms = c.terms) : Behind L T c' := by
  obtain ⟨l₀, hl₀, hlater⟩ := h.log
  refine ⟨?_, fun hs => h.stream (hstream hs), ?_, ⟨l₀ ++ l, ?_, ?_⟩, hterms.trans h.terms⟩
  · rcases hstate with hs | hs | hs
    · exact hs ▸ h.state
    · simp [hs]
    · simp [hs]
  · rcases hstate with hs | hs | hs
    · exact hs ▸ h.opened
    · simp [hs]
    · simp [hs]
  · rw [hlog, hl₀, List.append_assoc]
  · exact fun e he => (List.mem_append.mp he).elim (hlater e) (hl e)

theorem Behind.emit {c : Conn σ δ} (h : Behind L T c) {e : Event} (he : e.later = true) :
    Behind L T (c.emit e) :=
  h.grow [e] (.inl rfl) id rfl (by simpa using he) rfl

theorem Behind.written {c : Conn σ δ} (h : Behind L T c) {e : Event} (he : e.later = true)
    (res : WriteRes) : Behind L T (c.written e res) :=
  h.grow [e] (.inl rfl) written_opening rfl (by simpa using he) rfl

theorem Behind.opened_log {c : Conn σ δ} (h : Behind L T c) (ho : Opened c.log) : Opened L := by
  obtain ⟨l, hl, hlater⟩ := h.log
  rw [Opened, hl] at ho
  exact (List.mem_append.mp ho).resolve_right fun hmem => by cases hlater _ hmem

theorem Behind.rebase {c : Conn σ δ} (h : Behind L T c) : Behind c.log c.terms c := by
  obtain ⟨l, hl, -⟩ := h.log
  refine ⟨h.state, h.stream, fun hs => ?_, ⟨[], by simp, by simp⟩, rfl⟩
  rw [hl]
  exact List.mem_append_left l (h.opened hs)

theorem Move.behind {c c' : Conn σ δ} (hm : Move env c c') (h : Behind L T c) : Behind L T c' := by
  cases hm with
  | note e he => exact h.emit (Event.later_of_plain he)
  | seed seed => exact h.grow [] (.inl rfl) id (by simp) (by simp) rfl
  | compressor df d hd =>
      refine h.grow [] (.inl rfl) id (by simp) (by simp) ?_
      rw [terms, terms, hd]
      rfl
  | frame opcode data res hs ho => exact h.written rfl res
  | ended n hg =>
      rw [notifyNested_eq, shut_eq]
      exact h.grow (shutEvents c ++ noticeEvents env n) (.inr (.inr rfl)) (fun hs => by cases hs)
        (by simp) (fun e he => (ended_routine c n e he).1) rfl
  | leave ho => exact h.grow [.state .closing] (.inr (.inl rfl)) id rfl (by simp [Event.later]) rfl
  | close =>
      rw [close_eq]
      exact h.grow (closeEvents c) (.inr (.inr rfl)) (fun hs => by cases hs) rfl
        (fun e he => (close_routine c e he).1) rfl

theorem Moves.behind {c c' : Conn σ δ} (hm : Moves env c c') (h : Behind L T c) : Behind L T c' := by
  induction hm with
  | refl => exact h
  | tail _ hm ih => exact hm.behind ih

theorem sendFrameRaw_behind (opcode : Nat) (payload : Arg) (rsv1 : Bool) {c : Conn σ δ}
    (h : Behind L T c) : Behind L T (sendFrameRaw env (notify env) opcode payload rsv1 c).2 := by
  rcases sendFrameRaw_cases env (notify env) opcode payload rsv1 c with
    ⟨seed, events, he, heq⟩ | ⟨seed, data, res, -, -, heq⟩
  · rw [heq]
    have hm : Moves env c _ := seed_alloc_moves c seed events he
    exact hm.behind h
  · rw [heq]
    have hm : Moves env c _ := seed_alloc_moves c seed [.alloc true] (.inr ⟨true, rfl⟩)
    have h₁ := hm.behind h
    exact (settle_moves (notify_moves env) res _).behind (h₁.written rfl res)

theorem fatal_behind (err : Int) {c : Conn σ δ} (h : Behind L T c) :
    Behind L T (fatal env (notify env) err c) := by
  refine (fatal_moves (notify_moves env) err c fun _ hs => ?_).behind h
  obtain ⟨l, hl, -⟩ := h.log
  rw [hl]
  exact List.mem_append_left l (h.opened hs)

theorem callback_behind (cb : Callback) {e : Event} (he : e.later = true) {c : Conn σ δ}
    (h : Behind L T c) : Behind L T (callback env cb e c) := by
  cases cb with
  | none => exact h
  | some cb => exact (callback_moves env cb e c).behind (h.emit he)

theorem enterClosed_behind (code : Nat) (reason : Bytes) {c : Conn σ δ} (h : Behind L T c) :
    Behind L T (enterClosed (notify env) code reason c) :=
  (enterClosed_moves (notify_moves env) code reason c).behind h

variable (env L T) in
theorem behind_carried : Carries env (Behind (σ := σ) (δ := δ) L T) where
  store h heq := by
    simp only [Prod.mk.injEq] at heq
    obtain ⟨hstate, -, hstream, -, hlog, hterms⟩ := heq
    exact h.grow [] (.inl hstate) (hstream ▸ id) (by simp [hlog]) (by simp) hterms
  note he h := h.emit (Event.later_of_traced he)
  message site data isBin fin total c h := by
    unfold message
    split
    · exact h.emit rfl
    · exact (callback_behind _ rfl h).emit rfl
  pong payload _ h := callback_behind _ rfl h
  sendPong payload _ h := sendFrameRaw_behind Opcode.pong _ false h
  closeCode code c h := enterClosed_behind code [] (sendFrameRaw_behind Opcode.close _ false (h.emit rfl))
  acceptClose payload code reason c h := by
    unfold acceptClose
    split
    · exact enterClosed_behind code reason h
    · exact enterClosed_behind code reason (sendFrameRaw_behind Opcode.close _ false h)
  fatal err _ h := fatal_behind err h

theorem Behind.step {c : Conn σ δ} (h : Behind L T c) (i : Input) : Behind L T (step env c i) := by
  cases i with
  | streamOpened =>
      simp only [Conn.step]
      rw [if_neg h.stream]
      exact h
  | data d =>
      simp only [Conn.step]
      split
      · unfold onData
        split
        · exact h
        split
        · exact fatal_behind _ h
        · have h₁ : Behind L T { c with recv := c.recv ++ d } :=
            h.grow [] (.inl rfl) id (by simp) (by simp) rfl
          dsimp only
          rw [if_neg h.state]
          exact (behind_carried env L T).frameData h₁
      · exact h
  | streamClosed =>
      simp only [Conn.step]
      split
      · refine (onStreamClose_moves (notify_moves env) _).behind ?_
        exact h.grow [] (.inl rfl) (fun hs => by cases hs) (by simp) (by simp) rfl
      · exact h
  | streamFailed err =>
      simp only [Conn.step]
      split
      · refine (onStreamError_moves (notify_moves env) err _).behind ?_
        exact h.grow [] (.inl rfl) (fun hs => by cases hs) (by simp) (by simp) rfl
      · exact h
  | pingTick =>
      simp only [Conn.step, onPingTimer]
      split
      · split
        · exact h
        · exact sendFrameRaw_behind Opcode.ping _ false h
      · exact h
  | call a => exact (call_moves (notify_moves env) a c).behind h

end

-- ---- before the handshake ----

-- A connection that has taken the bytes `R` and waits for the rest of its handshake.
structure Awaits (env : Env σ δ) (R : Bytes) (c : Conn σ δ) : Prop where
  place : c.state = .connecting ∧ c.stream = .opening ∨ c.state = .handshake ∧ c.stream ≠ .opening
  alive : c.destroyed = false
  recv : c.recv = R
  deflate : c.deflate = none
  unopened : ¬ Opened c.log
  unuttered : ∀ e ∈ c.log, e.uttered env.isClient = false

-- One that will not come to OPEN any more.
def Dead (c : Conn σ δ) : Prop := ¬ Opened c.log ∧ Behind c.log c.terms c

def Pending (env : Env σ δ) (R : Bytes) (c : Conn σ δ) : Prop := Awaits env R c ∨ Dead c

section

variable {R : Bytes}

theorem Pending.unopened {c : Conn σ δ} (h : Pending env R c) : ¬ Opened c.log :=
  h.elim Awaits.unopened And.left

theorem Dead.of_state {c : Conn σ δ} (ho : ¬ Opened c.log) (hhand : c.state ≠ .handshake)
    (hopen : c.state ≠ .opened) (hs : c.stream ≠ .opening) : Dead c :=
  ⟨ho, hhand, hs, fun h => absurd h hopen, ⟨[], by simp, by simp⟩, rfl⟩

theorem Dead.of_closed {c : Conn σ δ} (ho : ¬ Opened c.log) (hc : c.state = .closed)
    (hs : c.stream ≠ .opening) : Dead c :=
  .of_state ho (by simp [hc]) (by simp [hc]) hs

theorem Behind.dead {L : List Event} {T : Option (Bool × Bool × Nat × Nat)} {c : Conn σ δ}
    (h : Behind L T c) (ho : ¬ Opened L) : Dead c :=
  ⟨fun hc => ho (h.opened_log hc), h.rebase⟩

theorem unopened_append {log l : List Event} (h : ¬ Opened log) (hl : ∀ e ∈ l, e.later = true) :
    ¬ Opened (log ++ l) := by
  intro ho
  rcases List.mem_append.mp ho with ho | ho
  · exact h ho
  · cases hl _ ho

theorem Awaits.state_ne {c : Conn σ δ} (h : Awaits env R c) : c.state ≠ .opened ∧ c.state ≠ .closing := by
  rcases h.place with ⟨hs, -⟩ | ⟨hs, -⟩ <;> simp [hs]

theorem Awaits.not_gone {c : Conn σ δ} (h : Awaits env R c) : c.gone = false := by
  rcases h.place with ⟨hs, -⟩ | ⟨hs, -⟩ <;> simp [gone, h.alive, hs]

theorem Awaits.grow {c c' : Conn σ δ} (h : Awaits env R c) (l : List Event)
    (hplace : c'.state = .connecting ∧ c'.stream = .opening ∨ c'.state = .handshake ∧ c'.stream ≠ .opening)
    (heq : (c'.destroyed, c'.recv, c'.deflate) = (c.destroyed, c.recv, c.deflate))
    (hlog : c'.log = c.log ++ l)
    (hl : ∀ e ∈ l, e.later = true ∧ e.uttered env.isClient = false) : Awaits env R c' := by
  simp only [Prod.mk.injEq] at heq
  obtain ⟨hd, hr, hdf⟩ := heq
  refine ⟨hplace, hd.trans h.alive, hr.trans h.recv, hdf.trans h.deflate, ?_, ?_⟩
  · rw [hlog]
    exact unopened_append h.unopened fun e he => (hl e he).1
  · rw [hlog]
    exact fun e he => (List.mem_append.mp he).elim (h.unuttered e) fun he => (hl e he).2

theorem Move.pending {c c' : Conn σ δ} (hm : Move env c c') (h : Pending env R c) :
    Pending env R c' := by
  rcases h with h | h
  · cases hm with
    | note e he =>
        exact .inl (h.grow [e] h.place rfl rfl fun x hx => List.mem_singleton.mp hx ▸
          ⟨Event.later_of_plain he, Event.unuttered_of_plain he _⟩)
    | seed seed => exact .inl (h.grow [] h.place rfl (by simp) (by simp))
    | compressor df d hd => cases h.deflate.symm.trans hd
    | frame opcode data res hs ho =>
        rcases ho with ho | ⟨ho, -⟩
        · exact absurd ho h.state_ne.1
        · exact absurd ho h.state_ne.2
    | ended n hg =>
        rw [notifyNested_eq, shut_eq]
        refine .inr (.of_state ?_ (by simp) (by simp) (by simp))
        dsimp only
        rw [List.append_assoc]
        exact unopened_append h.unopened fun e he => (ended_routine c n e he).1
    | leave ho => exact absurd ho h.state_ne.1
    | close =>
        rw [close_eq]
        refine .inr (.of_state ?_ (by simp) (by simp) (by simp))
        exact unopened_append h.unopened fun e he => (close_routine c e he).1
  · exact .inr ((hm.behind h.2).dead h.1)

theorem Moves.pending {c c' : Conn σ δ} (hm : Moves env c c') (h : Pending env R c) :
    Pending env R c' := by
  induction hm with
  | refl => exact h
  | tail _ hm ih => exact hm.pending ih

theorem fatal_pending (err : Int) {c : Conn σ δ} (h : Pending env R c) :
    Pending env R (fatal env (notify env) err c) := by
  rcases h with h | h
  · exact (fatal_moves (notify_moves env) err c fun _ hs => absurd hs h.state_ne.1).pending (.inl h)
  · exact .inr ((fatal_behind err h.2).dead h.1)

theorem Pending.idle {c : Conn σ δ} (h : Pending env R c) : Pending env R { c with stream := .idle } := by
  rcases h with h | h
  · rcases h.place with ⟨hs, -⟩ | ⟨hs, -⟩
    · exact .inr (.of_state h.unopened (by simp [hs]) (by simp [hs]) (by simp))
    · exact .inl (h.grow [] (.inr ⟨hs, by simp⟩) rfl (by simp) (by simp))
  · have hb : Behind c.log c.terms { c with stream := .idle } :=
      h.2.grow [] (.inl rfl) (fun hs => by cases hs) (by simp) (by simp) rfl
    exact .inr (hb.dead h.1)

-- What neither opens the stream nor brings bytes.
theorem Pending.step {c : Conn σ δ} (h : Pending env R c) {i : Input} (hi : i ≠ .streamOpened)
    (hdata : ∀ d, i ≠ .data d) : Pending env R (step env c i) := by
  rcases h with h | h
  · cases i with
    | streamOpened => exact absurd rfl hi
    | data d => exact absurd rfl (hdata d)
    | streamClosed =>
        simp only [Conn.step]
        split
        · exact (onStreamClose_moves (notify_moves env) _).pending (Pending.idle (.inl h))
        · exact .inl h
    | streamFailed err =>
        simp only [Conn.step]
        split
        · exact (onStreamError_moves (notify_moves env) err _).pending (Pending.idle (.inl h))
        · exact .inl h
    | pingTick =>
        simp only [Conn.step, onPingTimer]
        split
        · rw [if_pos (.inr h.state_ne.1)]
          exact .inl h
        · exact .inl h
    | call a => exact (call_moves (notify_moves env) a c).pending (.inl h)
  · exact .inr ((h.2.step i).dead h.1)

end

-- ---- OPEN ----

theorem Move.terms_eq {c c' : Conn σ δ} (hm : Move env c c') : c'.terms = c.terms := by
  cases hm with
  | compressor df d hd =>
      rw [terms, terms, hd]
      rfl
  | ended n hg => rw [notifyNested_eq, shut_eq, terms, terms]
  | close => rw [close_eq, terms, terms]
  | _ => rfl

theorem Moves.terms_eq {c c' : Conn σ δ} (hm : Moves env c c') : c'.terms = c.terms := by
  induction hm with
  | refl => rfl
  | tail _ hm ih => exact hm.terms_eq.trans ih

theorem openUp_behind (skip : Nat) {c : Conn σ δ} (hs : c.stream ≠ .opening) :
    Behind (c.log ++ [.state .opened]) c.terms (openUp env skip c) := by
  unfold openUp
  extract_lets c₁ c₂ c₃
  have h₁ : Behind (c.log ++ [.state .opened]) c.terms c₁ :=
    ⟨by simp [c₁, setState], by simpa [c₁, setState] using hs, fun _ => by simp,
      ⟨[], by simp [c₁, setState], by simp⟩, rfl⟩
  have h₂ : Behind (c.log ++ [.state .opened]) c.terms c₂ := (callback_behind _ rfl h₁).emit rfl
  have h₃ : Behind (c.log ++ [.state .opened]) c.terms c₃ := by
    simp only [c₃, registerPing]
    split
    · exact h₂.grow _ (.inl rfl) id rfl (by simp [Event.later]) rfl
    · exact h₂
  split
  · exact h₂
  split
  · exact h₃
  · have h₄ := (behind_carried env _ _).runFrames h₃
    dsimp only
    split
    · exact fatal_behind _ h₄
    · exact h₄

-- What ws_deflate_create leaves of a connection without a context.
theorem createDeflate_made (p : DeflateParams) {c : Conn σ δ} (hnone : c.deflate = none) :
    createDeflate env p c =
      ((deflateCreate env.zlib (env.alloc c.log) p).isSome,
        { c with
          deflate := deflateCreate env.zlib (env.alloc c.log) p
          log := c.log ++ [.alloc (env.alloc c.log)] }) := by
  unfold createDeflate
  dsimp only [alloc]
  cases deflateCreate env.zlib (env.alloc c.log) p with
  | none =>
      dsimp only [emit, Option.isSome_none]
      rw [← hnone]
  | some df => rfl

theorem deflateCreate_terms {z : Zlib σ δ} {ok : Bool} {p : DeflateParams} {df : Deflate σ δ}
    (h : deflateCreate z ok p = some df) :
    df.terms = (p.serverNoContextTakeover, p.clientNoContextTakeover,
      if p.serverMaxWindowBits ≠ 0 then p.serverMaxWindowBits else 15,
      if p.clientMaxWindowBits ≠ 0 then p.clientMaxWindowBits else 15) := by
  obtain ⟨hclient, hserver, hwindow, hinflate⟩ := deflateCreate_params h
  rw [Deflate.terms, hclient, hserver, hwindow, hinflate]

-- ---- the server ----

-- The 101 response of the library.
def upgradeAnswer (key : Bytes) (confirm : Bool) : Bytes :=
  Http.headOf responseLine (responseFields key confirm)

-- A server that has answered, and its context.
def Served (key : Bytes) (confirm : Bool) (c : Conn σ δ) : Prop :=
  key.length ≤ 24 ∧ ∃ L nct, upgradeAnswer key confirm <+: sent L ∧
    Behind L (if confirm then some (false, nct, 15, 15) else none) c

theorem buildResponse_answer {key : Bytes} (h : key.length ≤ 24) (confirm : Bool) :
    buildResponse 512 key confirm = some (upgradeAnswer key confirm) := by
  obtain ⟨heq, hlen⟩ := buildResponse_eq 512 h confirm
  rw [heq, fits_eq hlen]
  rfl

theorem sent_unuttered {log : List Event} (h : ∀ e ∈ log, e.uttered false = false) : sent log = [] := by
  refine List.flatMap_eq_nil_iff.mpr fun e he => ?_
  have := h e he
  cases e <;> first | rfl | cases this

theorem handedOver_ret {data : Bytes} {res : WriteRes} (h : res.ret = 0) : handedOver data res = data := by
  cases res <;> first | rfl | cases h

section

variable {c : Conn σ δ} (ho : ¬ Opened c.log) (hd : c.destroyed = false) (hs : c.stream = .opened)

include ho hd hs

-- After a write on an open stream.
theorem written_settled (ev : WriteRes → Event) (hev : ∀ res, (ev res).later = true) :
    let r := streamWrite env (notify env) ev c
    r.1 = (env.write c.log).ret ∧ r.2.stream ≠ .opening ∧ ¬ Opened r.2.log ∧ Honest r.2 ∧
      r.2.terms = c.terms ∧ c.log ++ [ev (env.write c.log)] <+: r.2.log := by
  have hm := settle_moves (notify_moves env) (env.write c.log)
    (c.written (ev (env.write c.log)) (env.write c.log))
  rw [streamWrite_eq env _ ev c hs]
  refine ⟨rfl, fun h => ?_, fun h => ?_, (Moves.onward hm).honest fun h => ?_, hm.terms_eq, hm.log_grows⟩
  · have := written_opening (hm.opening h)
    rw [hs] at this
    cases this
  · refine unopened_append ho ?_ (hm.opened_log h)
    simpa using hev _
  · exact absurd h (by simp [written, hd])

theorem serverHandshakeFail_dead (status : Nat) : Dead (serverHandshakeFail env status c) := by
  unfold serverHandshakeFail
  extract_lets text extra c₁ c₂
  have h₁ : c₁.stream ≠ .opening ∧ ¬ Opened c₁.log := by
    simp only [c₁]
    split
    · exact ⟨by simp [hs], ho⟩
    · rename_i resp _
      obtain ⟨-, hstream, hopened, -⟩ := written_settled ho hd hs (.refusalOut resp) fun _ => rfl
      exact ⟨hstream, hopened⟩
  have h₂ : Dead c₂ := by
    refine .of_state ?_ (by simp [c₂, setState]) (by simp [c₂, setState]) (by simpa [c₂, setState, emit] using h₁.1)
    simp only [c₂, setState, emit, List.append_assoc]
    exact unopened_append h₁.2 (by simp [Event.later])
  exact (callback_behind _ rfl h₂.2).dead h₂.1

theorem serverAnswer_served (key : Bytes) (skip : Nat) (confirm : Bool) (nct : Bool)
    (hkey : key.length ≤ 24) (hun : ∀ e ∈ c.log, e.uttered false = false)
    (hterms : c.terms = if confirm then some (false, nct, 15, 15) else none) :
    let r := streamWrite env (notify env) (.upgradeOut (upgradeAnswer key confirm)) c
    Dead (if r.1 ≠ 0 then fatal env (notify env) Err.wsWrite r.2 else openUp env skip r.2) ∨
      Served key confirm (if r.1 ≠ 0 then fatal env (notify env) Err.wsWrite r.2 else openUp env skip r.2) := by
  obtain ⟨hret, hstream, hopened, hhonest, hkept, hlog⟩ :=
    written_settled ho hd hs (.upgradeOut (upgradeAnswer key confirm)) fun _ => rfl
  intro r
  split
  · have hm := fatal_moves (notify_moves env) Err.wsWrite r.2 fun h => by cases h
    exact .inl (.of_closed (fun h => hopened (hm.opened_log h)) (fatal_over _ hhonest)
      fun h => hstream (hm.opening h))
  · rename_i hrc
    have hzero : (env.write c.log).ret = 0 := hret.symm.trans (of_not_not hrc)
    have hfirst : sent (c.log ++ [.upgradeOut (upgradeAnswer key confirm) (env.write c.log)]) =
        upgradeAnswer key confirm := by
      rw [sent_append, sent_unuttered hun, List.nil_append, sent, List.flatMap_singleton,
        Event.sentBytes, handedOver_ret hzero]
    refine .inr ⟨hkey, r.2.log ++ [.state .opened], nct, ?_, ?_⟩
    · exact hfirst ▸ sent_mono (hlog.trans (List.prefix_append _ _))
    · rw [← hterms, ← hkept]
      exact openUp_behind skip hstream

-- The context is there iff the answer says so.
theorem serverEstablish_served (key : Bytes) (skip : Nat) (offered nct : Bool) (hkey : key.length ≤ 24)
    (hnone : c.deflate = none) (hun : ∀ e ∈ c.log, e.uttered false = false) :
    Dead (serverEstablish env key skip offered nct c) ∨
      ∃ confirm, Served key confirm (serverEstablish env key skip offered nct c) := by
  unfold serverEstablish
  by_cases htry : (env.enableDeflate && offered) = true
  · rw [if_pos htry, createDeflate_made _ hnone]
    dsimp only
    rw [buildResponse_answer hkey]
    dsimp only
    set p : DeflateParams := { DeflateParams.zero with
      clientNoContextTakeover := nct, compressionLevel := env.deflateLevel } with hp
    set c₁ : Conn σ δ := { c with
      deflate := deflateCreate env.zlib (env.alloc c.log) p, log := c.log ++ [.alloc (env.alloc c.log)] }
    have ho₁ : ¬ Opened c₁.log := unopened_append ho (by simp [Event.later])
    have hun₁ : ∀ e ∈ c₁.log, e.uttered false = false := by
      intro e he
      rcases List.mem_append.mp he with he | he
      · exact hun e he
      · rw [List.mem_singleton.mp he]
        rfl
    have hterms : c₁.terms =
        if (deflateCreate env.zlib (env.alloc c.log) p).isSome then some (false, nct, 15, 15) else none := by
      unfold terms
      cases hdf : deflateCreate env.zlib (env.alloc c.log) p with
      | none => simp [c₁, hdf]
      | some df =>
          simp only [c₁, hdf, Option.map_some, deflateCreate_terms hdf, Option.isSome_some, if_true]
          rfl
    exact (serverAnswer_served ho₁ hd hs key skip _ nct hkey hun₁ hterms).imp_right fun h => ⟨_, h⟩
  · rw [if_neg htry]
    dsimp only
    rw [buildResponse_answer hkey]
    have hterms : c.terms = if false then some (false, nct, 15, 15) else none := by
      unfold terms
      rw [hnone]
      rfl
    exact (serverAnswer_served ho hd hs key skip false nct hkey hun hterms).imp_right fun h => ⟨_, h⟩

theorem handshakeDataServer_served (hnone : c.deflate = none) (hun : ∀ e ∈ c.log, e.uttered false = false) :
    handshakeDataServer env c = c ∨ Dead (handshakeDataServer env c) ∨
      ∃ key confirm, Served key confirm (handshakeDataServer env c) := by
  unfold handshakeDataServer
  obtain ⟨ret, req, hparse⟩ : ∃ ret req, parseRequest c.recv = (ret, req) := ⟨_, _, rfl⟩
  rw [hparse]
  dsimp only
  split
  · exact .inl rfl
  rename_i hzero
  split
  · exact .inr (.inl (serverHandshakeFail_dead ho hd hs _))
  rename_i hreq
  obtain ⟨hpos, hstatus⟩ := not_or.mp hreq
  have htaken : 0 < (parseRequest c.recv).1 := by
    rw [hparse]
    dsimp only
    omega
  obtain ⟨m, -, hm⟩ := parseRequest_complete htaken
  obtain rfl : req = checkRequest c.recv m := congrArg Prod.snd (hparse.symm.trans hm)
  obtain ⟨v, -, hlen, hkey, -⟩ := checkRequest_taken (of_not_not hstatus)
  have hshort : (checkRequest c.recv m).key.length ≤ 24 := by
    rw [hkey, ← hlen]
    exact (List.takeWhile_sublist _).length_le
  exact .inr ((serverEstablish_served ho hd hs _ _ _ _ hshort hnone hun).imp_right fun h => ⟨_, h⟩)

end

theorem Served.step {key : Bytes} {confirm : Bool} {c : Conn σ δ} (h : Served key confirm c) (i : Input) :
    Served key confirm (step env c i) := by
  obtain ⟨hkey, L, nct, hsent, hb⟩ := h
  exact ⟨hkey, L, nct, hsent, hb.step i⟩

def AtServer (env : Env σ δ) (c : Conn σ δ) : Prop :=
  (∃ R, Pending env R c) ∨ ∃ key confirm, Served key confirm c

theorem AtServer.step (hserver : env.isClient = false) {c : Conn σ δ} (h : AtServer env c) (i : Input) :
    AtServer env (step env c i) := by
  rcases h with ⟨R, h | h⟩ | ⟨key, confirm, h⟩
  · by_cases hplain : i ≠ .streamOpened ∧ ∀ d, i ≠ .data d
    · exact .inl ⟨R, Pending.step (.inl h) hplain.1 hplain.2⟩
    cases i with
    | streamOpened =>
        refine .inl ⟨R, .inl ?_⟩
        simp only [Conn.step, onStreamOpen]
        split
        · rw [if_pos (by simp [hserver])]
          exact h.grow [.state .handshake] (.inr ⟨rfl, by simp [setState]⟩) rfl rfl
            (by simp [Event.later, Event.uttered])
        · exact h
    | data d =>
        simp only [Conn.step]
        split
        · rename_i hs
          have hhand : c.state = .handshake := by
            rcases h.place with ⟨-, hopening⟩ | ⟨hhand, -⟩
            · cases hs.symm.trans hopening
            · exact hhand
          unfold onData
          rw [if_neg (by simp [h.not_gone])]
          split
          · exact .inl ⟨R, fatal_pending _ (.inl h)⟩
          · dsimp only
            rw [if_pos hhand]
            have hrole : handshakeData env { c with recv := c.recv ++ d } =
                handshakeDataServer env { c with recv := c.recv ++ d } := by
              unfold handshakeData
              rw [if_neg (by simp [hserver])]
            have h₁ : Awaits env (R ++ d) { c with recv := c.recv ++ d } :=
              ⟨h.place, h.alive, by rw [h.recv], h.deflate, h.unopened, h.unuttered⟩
            rw [hrole]
            have hun := h₁.unuttered
            rw [hserver] at hun
            rcases @handshakeDataServer_served _ _ env _ h₁.unopened h₁.alive hs h₁.deflate hun with
              heq | hdead | hserved
            · rw [heq]
              exact .inl ⟨R ++ d, .inl h₁⟩
            · exact .inl ⟨R ++ d, .inr hdead⟩
            · exact .inr hserved
        · exact .inl ⟨R, .inl h⟩
    | _ => exact absurd ⟨by simp, by simp⟩ hplain
  · exact .inl ⟨R, .inr ((h.2.step i).dead h.1)⟩
  · exact .inr ⟨key, confirm, h.step i⟩

theorem Entry.atServer {c : Conn σ δ} (h : Entry env c) : AtServer env c := by
  cases h with
  | start host port path seed =>
      exact .inl ⟨[], .inl ⟨.inl ⟨rfl, rfl⟩, rfl, rfl, rfl, by simp [Opened, Conn.start], by simp [Conn.start]⟩⟩
  | upgrade recv seed hs hfit =>
      unfold Conn.upgrade
      set c₀ : Conn σ δ := { Conn.start [] 0 [] seed with stream := .opened, recv := recv } with hc₀
      have hopened : ¬ Opened c₀.log := by simp [c₀, Opened, Conn.start]
      rcases @handshakeDataServer_served _ _ env c₀ hopened rfl rfl rfl (by simp [c₀, Conn.start]) with
        heq | hdead | hserved
      · rw [heq]
        exact .inl ⟨recv, .inr (.of_state hopened (by simp [c₀, Conn.start]) (by simp [c₀, Conn.start]) (by simp [c₀]))⟩
      · exact .inl ⟨recv, .inr hdead⟩
      · exact .inr hserved

theorem server_run (hserver : env.isClient = false) (inputs : List Input) {c : Conn σ δ}
    (h : AtServer env c) : AtServer env (run env c inputs) := by
  induction inputs generalizing c with
  | nil => exact h
  | cons i rest ih => exact ih (h.step hserver i)

end Conn

end Sevent.Ws
