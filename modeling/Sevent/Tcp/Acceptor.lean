import Sevent.Basic
import Sevent.Trace

-- A listening socket (tcp_acceptor.c) over its whole life: listen, the accept loop with the calls that
-- are made in on_accept, close, and the release that destroy posts to the loop.
namespace Sevent.Err

def listen : Int := -7

end Sevent.Err

namespace Sevent.Tcp

open Sevent.Trace

namespace Acceptor

def backlogDefault : Int := 8

-- What the system calls of one sevent_tcp_acceptor_listen answer, in their order.
structure Answers where
  socket : Option Nat
  fcntlOk : Bool
  -- inet_pton, if there is an address
  addrOk : Bool
  bindOk : Bool
  listenOk : Bool
  -- the port that getsockname reports
  name : Option Nat
  ioOk : Bool
  deriving DecidableEq, Repr

inductive Event where
  | socket (fd : Nat)
  | bind (fd : Nat) (addr : Option Bytes) (port : Nat)
  | listen (fd : Nat) (backlog : Int)
  | closeFd (fd : Nat)
  -- on_accept with its user_data
  | callback (user : Nat)
  | ioRegister (fd : Nat) (ok : Bool)
  | ioUnregister
  -- sevent_tcp_acceptor_listen has returned
  | returned (rc : Int)
  | accept (fd : Nat)
  | onAccept (user : Option Nat) (fd : Nat)
  -- `destroyed` is read behind the callback
  | checked
  | destroyCall
  -- sevent_post of acc_cleanup
  | posted (ok : Bool)
  | freed
  deriving DecidableEq, Repr

-- A call of the user; `onAccept` may be NULL.
inductive Call where
  | listen (addr : Option Bytes) (port : Nat) (backlog : Int) (onAccept : Option Nat) (k : Answers)
  | close
  | destroy (postOk : Bool)
  deriving DecidableEq, Repr

end Acceptor

-- A descriptor that is negative in the source is `none`, and so is the port then.
structure Acceptor where
  fd : Option Nat
  ioHandle : Option Nat
  port : Option Nat
  destroyed : Bool
  onAccept : Option Nat
  -- acc_cleanup waits in the loop
  posted : Bool
  freed : Bool
  log : List Acceptor.Event

namespace Acceptor

def create : Acceptor :=
  { fd := none, ioHandle := none, port := none, destroyed := false, onAccept := none, posted := false
    freed := false, log := [] }

def emit (e : Event) (a : Acceptor) : Acceptor := { a with log := a.log ++ [e] }

def closeIo (a : Acceptor) : Acceptor :=
  let a := if a.ioHandle.isSome then { a.emit .ioUnregister with ioHandle := none } else a
  let a :=
    match a.fd with
    | some fd => { a.emit (.closeFd fd) with fd := none }
    | none => a
  { a with port := none }

def listen (addr : Option Bytes) (port : Nat) (backlog : Int) (onAccept : Option Nat) (k : Answers)
    (a : Acceptor) : Int × Acceptor :=
  match onAccept, a.fd with
  | none, _ => (Err.inval, a)
  | _, some _ => (Err.inval, a)
  | some user, none =>
      let backlog := if backlog ≤ 0 then backlogDefault else backlog
      match k.socket with
      | none => (Err.listen, a)
      | some fd =>
          let a := a.emit (.socket fd)
          if !k.fcntlOk then (Err.listen, a.emit (.closeFd fd))
          else if addr.isSome && !k.addrOk then (Err.inval, a.emit (.closeFd fd))
          else
            let a := a.emit (.bind fd addr port)
            if !k.bindOk then (Err.listen, a.emit (.closeFd fd))
            else
              let a := a.emit (.listen fd backlog)
              if !k.listenOk then (Err.listen, a.emit (.closeFd fd))
              else
                match k.name with
                | none => (Err.listen, a.emit (.closeFd fd))
                | some name =>
                    let a := { a with fd := some fd, port := some name, onAccept := some user }
                    let a := (a.emit (.callback user)).emit (.ioRegister fd k.ioOk)
                    if k.ioOk then (0, { a with ioHandle := some fd })
                    else (Err.nomem, a.closeIo)

def cleanup (a : Acceptor) : Acceptor := { a.emit .freed with freed := true }

def destroy (postOk : Bool) (a : Acceptor) : Acceptor :=
  let a := { a.emit .destroyCall with destroyed := true }.closeIo.emit (.posted postOk)
  if postOk then { a with posted := true } else a.cleanup

-- Nothing may be called after sevent_tcp_acceptor_destroy.
def call (c : Call) (a : Acceptor) : Acceptor :=
  if a.destroyed then a
  else
    match c with
    | .listen addr port backlog onAccept k =>
        let (rc, a) := a.listen addr port backlog onAccept k
        a.emit (.returned rc)
    | .close => a.closeIo
    | .destroy postOk => a.destroy postOk

-- The descriptors that the kernel has for accept until EAGAIN, each with what on_accept calls.
def acceptLoop : List (Nat × List Call) → Acceptor → Acceptor
  | [], a => a
  | (fd, script) :: rest, a =>
      -- accept on a negative descriptor fails
      if a.fd = none then a
      else
        let a := (a.emit (.accept fd)).emit (.onAccept a.onAccept fd)
        let a := (script.foldl (fun a c => a.call c) a).emit .checked
        if a.destroyed then a else acceptLoop rest a

def onAcceptReady (ready : List (Nat × List Call)) (a : Acceptor) : Acceptor :=
  if a.destroyed then a else acceptLoop ready a

inductive Input where
  | call (c : Call)
  | readable (ready : List (Nat × List Call))
  | posts
  deriving DecidableEq, Repr

-- The loop reports what is registered, and runs what has been posted once.
def step (a : Acceptor) : Input → Acceptor
  | .call c => a.call c
  | .readable ready => if a.ioHandle.isSome then a.onAcceptReady ready else a
  | .posts => if a.posted then { a.cleanup with posted := false } else a

def run (a : Acceptor) (inputs : List Input) : Acceptor := inputs.foldl step a

-- ---- what an acceptor may do ----

-- What a log says: the socket that is open and whether the loop knows it, the callback that is set, a
-- descriptor that has come and not been handed over, and whether on_accept runs.
structure View where
  fd : Option Nat
  registered : Bool
  user : Option Nat
  pending : Option Nat
  inside : Bool
  destroyed : Bool
  freed : Bool
  deriving DecidableEq, Repr

def View.next (v : View) : Event → View
  | .socket fd => { v with fd := some fd }
  | .closeFd _ => { v with fd := none }
  | .callback user => { v with user := some user }
  | .ioRegister _ ok => { v with registered := ok }
  | .ioUnregister => { v with registered := false }
  | .accept fd => { v with pending := some fd }
  | .onAccept _ _ => { v with pending := none, inside := true }
  | .checked => { v with inside := false }
  | .destroyCall => { v with destroyed := true }
  | .freed => { v with freed := true }
  | _ => v

def view (log : List Event) : View := log.foldl View.next ⟨none, false, none, none, false, false, false⟩

-- What may follow it, on an acceptor that has not been released.
def View.Allows (v : View) : Event → Prop
  | .socket _ => v.fd = none ∧ v.destroyed = false
  | .bind fd _ _ => v.fd = some fd
  | .listen fd _ => v.fd = some fd
  | .closeFd fd => v.fd = some fd ∧ v.registered = false
  | .ioRegister fd _ => v.fd = some fd ∧ v.registered = false
  | .ioUnregister => v.registered = true
  | .accept _ => v.registered = true ∧ v.inside = false
  | .onAccept user fd => v.pending = some fd ∧ v.user = user ∧ user.isSome = true
  | .destroyCall => v.destroyed = false
  | .posted _ => v.destroyed = true ∧ v.fd = none ∧ v.registered = false
  | .freed => v.destroyed = true ∧ v.fd = none ∧ v.registered = false
  | .callback _ => v.destroyed = false
  | .returned _ => v.destroyed = false
  | .checked => v.inside = true

-- A descriptor that has come is handed over at once, and only the check behind a callback may read an
-- acceptor that is gone.
def Allowed (past : List Event) (e : Event) : Prop :=
  (view past).Allows e ∧ ((view past).freed = true → e = .checked) ∧
    ((view past).pending ≠ none → ∃ user fd, e = .onAccept user fd)

def Legal (log : List Event) : Prop := AtEach Allowed log

theorem view_concat (log : List Event) (e : Event) : view (log ++ [e]) = (view log).next e := by
  simp [view]

theorem Legal.emit {log : List Event} {e : Event} (h : Legal log) (ha : Allowed log e) :
    Legal (log ++ [e]) :=
  (atEach_concat _ _ _).mpr ⟨h, ha⟩

-- ---- the invariant ----

-- The acceptor is what its log says.
structure Steady (inside : Bool) (a : Acceptor) : Prop where
  legal : Legal a.log
  seen : view a.log = ⟨a.fd, a.ioHandle.isSome, a.onAccept, none, inside, a.destroyed, a.freed⟩
  handle : a.ioHandle = a.fd
  port : a.port.isSome = a.fd.isSome
  user : a.fd.isSome = true → a.onAccept.isSome = true

structure Sound (inside : Bool) (a : Acceptor) : Prop extends Steady inside a where
  shut : a.destroyed = true → a.fd = none
  posted : a.posted = true → a.destroyed = true ∧ a.freed = false
  freed : a.freed = true → a.destroyed = true
  released : a.destroyed = true → a.posted = true ∨ a.freed = true

variable {inside : Bool} {a : Acceptor}

theorem create_sound : Sound false create where
  legal := atEach_nil _
  seen := rfl
  handle := rfl
  port := rfl
  user h := by cases h
  shut _ := rfl
  posted h := by cases h
  freed h := by cases h
  released h := by cases h

-- An event that is allowed while nothing is pending and the acceptor is there.
theorem allowed_of {log : List Event} {e : Event} (h : (view log).Allows e)
    (hf : (view log).freed = false) (hp : (view log).pending = none) : Allowed log e :=
  ⟨h, (fun hfreed => by cases hfreed.symm.trans hf), fun hne => absurd hp hne⟩

-- The log has grown and says the same.
theorem Sound.grow (h : Sound inside a) {es : List Event} (hlegal : Legal (a.log ++ es))
    (hview : view (a.log ++ es) = view a.log) : Sound inside { a with log := a.log ++ es } :=
  ⟨⟨hlegal, hview.trans h.seen, h.handle, h.port, h.user⟩, h.shut, h.posted, h.freed,
    h.released⟩

theorem Sound.emit (h : Sound inside a) {e : Event} (ha : (view a.log).Allows e)
    (hf : a.freed = false) (hview : (view a.log).next e = view a.log) : Sound inside (a.emit e) := by
  have hseen := h.seen
  refine h.grow (h.legal.emit (allowed_of ha ?_ ?_)) ((view_concat _ _).trans hview)
  · rw [hseen]
    exact hf
  · rw [hseen]

theorem closeIo_kept (a : Acceptor) :
    a.closeIo.destroyed = a.destroyed ∧ a.closeIo.freed = a.freed ∧ a.closeIo.posted = a.posted := by
  unfold closeIo
  dsimp only
  split <;> split <;> exact ⟨rfl, rfl, rfl⟩

theorem closeIo_steady (h : Steady inside a) (hf : a.freed = false) :
    Steady inside a.closeIo ∧ a.closeIo.fd = none := by
  have hseen := h.seen
  have hhandle := h.handle
  cases hfd : a.fd with
  | none =>
      rw [hfd] at hhandle
      have heq : a.closeIo = { a with port := none } := by
        simp [closeIo, hfd, hhandle]
      rw [heq]
      have hport : (none : Option Nat).isSome = a.fd.isSome := by rw [hfd]
      exact ⟨⟨h.legal, hseen, h.handle, hport, h.user⟩, hfd⟩
  | some fd =>
      rw [hfd] at hhandle
      have heq : a.closeIo =
          { a with
            log := a.log ++ [.ioUnregister] ++ [.closeFd fd]
            ioHandle := none, fd := none, port := none } := by
        simp [closeIo, hfd, hhandle, Acceptor.emit]
      have hfirst : Legal (a.log ++ [.ioUnregister]) := by
        refine h.legal.emit (allowed_of ?_ ?_ ?_) <;> rw [hseen]
        · rw [hhandle]
          rfl
        · exact hf
      have hview : view (a.log ++ [.ioUnregister]) =
          ⟨some fd, false, a.onAccept, none, inside, a.destroyed, a.freed⟩ := by
        rw [view_concat, hseen, hfd]
        rfl
      rw [heq]
      refine ⟨⟨hfirst.emit (allowed_of ?_ ?_ ?_), ?_, rfl, rfl, fun h => by cases h⟩, rfl⟩
      · rw [hview]
        exact ⟨rfl, rfl⟩
      · rw [hview]
        exact hf
      · rw [hview]
      · rw [view_concat, hview]
        rfl

theorem closeIo_sound (h : Sound inside a) (hf : a.freed = false) : Sound inside a.closeIo := by
  obtain ⟨hsteady, hfd⟩ := closeIo_steady h.toSteady hf
  obtain ⟨hkd, hkf, hkp⟩ := closeIo_kept a
  refine ⟨hsteady, fun _ => hfd, ?_, ?_, ?_⟩
  · rw [hkp, hkd, hkf]
    exact h.posted
  · rw [hkd, hkf]
    exact h.freed
  · rw [hkd, hkf, hkp]
    exact h.released

-- Inside sevent_tcp_acceptor_listen, with a socket that the acceptor does not have yet.
structure Trying (inside : Bool) (fd : Nat) (a a' : Acceptor) : Prop where
  same : ∃ es, a' = { a with log := a.log ++ es }
  legal : Legal a'.log
  seen : view a'.log = ⟨some fd, false, a.onAccept, none, inside, false, false⟩

variable {a' : Acceptor} {fd : Nat}

theorem Trying.start (h : Sound inside a) (hd : a.destroyed = false) (hfd : a.fd = none)
    (hf : a.freed = false) (fd : Nat) : Trying inside fd a (a.emit (.socket fd)) := by
  have hseen : view a.log = ⟨none, false, a.onAccept, none, inside, false, false⟩ := by
    rw [h.seen, h.handle, hfd, hd, hf]
    rfl
  refine ⟨⟨[.socket fd], rfl⟩, h.legal.emit (allowed_of ?_ ?_ ?_), ?_⟩
  · rw [hseen]
    exact ⟨rfl, rfl⟩
  · rw [hseen]
  · rw [hseen]
  · rw [Acceptor.emit, view_concat, hseen]
    rfl

theorem Trying.emit (h : Trying inside fd a a') {e : Event} (ha : (view a'.log).Allows e)
    (hview : (view a'.log).next e = view a'.log) : Trying inside fd a (a'.emit e) := by
  obtain ⟨es, hes⟩ := h.same
  refine ⟨⟨es ++ [e], ?_⟩, h.legal.emit (allowed_of ha ?_ ?_), ?_⟩
  · rw [hes, Acceptor.emit, List.append_assoc]
  · rw [h.seen]
  · rw [h.seen]
  · rw [Acceptor.emit, view_concat, hview, h.seen]

-- A failure closes the socket.
theorem Trying.failed (h : Trying inside fd a a') (hs : Sound inside a) (hd : a.destroyed = false)
    (hfd : a.fd = none) (hf : a.freed = false) : Sound inside (a'.emit (.closeFd fd)) := by
  obtain ⟨es, rfl⟩ := h.same
  have hseen := h.seen
  have hlegal : Legal (a.log ++ (es ++ [.closeFd fd])) := by
    rw [← List.append_assoc]
    refine h.legal.emit (allowed_of ?_ ?_ ?_) <;> rw [hseen]
    exact ⟨rfl, rfl⟩
  have hview : view (a.log ++ (es ++ [.closeFd fd])) = view a.log := by
    rw [← List.append_assoc, view_concat, hseen, hs.seen, hs.handle, hfd, hd, hf]
    rfl
  have hgrown := hs.grow hlegal hview
  rwa [← List.append_assoc] at hgrown

-- The socket is taken over and registered; without the memory for that it is closed.
theorem Trying.done (h : Trying inside fd a a') (hs : Sound inside a) (hd : a.destroyed = false)
    (hfd : a.fd = none) (hf : a.freed = false) (name user : Nat) (ok : Bool) :
    let b : Acceptor := { a' with fd := some fd, port := some name, onAccept := some user }
    let b := (b.emit (.callback user)).emit (.ioRegister fd ok)
    Sound inside (if ok then { b with ioHandle := some fd } else b.closeIo) := by
  obtain ⟨es, rfl⟩ := h.same
  have hseen := h.seen
  have hfirst : Legal (a.log ++ es ++ [.callback user]) := by
    refine h.legal.emit (allowed_of ?_ ?_ ?_) <;> rw [hseen]
    rfl
  have hview₁ : view (a.log ++ es ++ [.callback user]) =
      ⟨some fd, false, some user, none, inside, false, false⟩ := by
    rw [view_concat, hseen]
    rfl
  have hsecond : Legal (a.log ++ es ++ [.callback user] ++ [.ioRegister fd ok]) := by
    refine hfirst.emit (allowed_of ?_ ?_ ?_) <;> rw [hview₁]
    exact ⟨rfl, rfl⟩
  have hview₂ : view (a.log ++ es ++ [.callback user] ++ [.ioRegister fd ok]) =
      ⟨some fd, ok, some user, none, inside, false, false⟩ := by
    rw [view_concat, hview₁]
    rfl
  have hover : a.destroyed = true → (some fd : Option Nat) = none := fun h => by
    cases h.symm.trans hd
  intro b₀ b
  cases ok with
  | true =>
      rw [if_pos rfl]
      refine ⟨⟨hsecond, ?_, rfl, rfl, fun _ => rfl⟩, hover, hs.posted, hs.freed,
        hs.released⟩
      show _ = View.mk (some fd) true (some user) none inside a.destroyed a.freed
      rw [hd, hf]
      exact hview₂
  | false =>
      have hnone : a.ioHandle = none := hs.handle.trans hfd
      have heq : b.closeIo =
          { b with log := b.log ++ [.closeFd fd], fd := none, port := none } := by
        simp [b, b₀, closeIo, Acceptor.emit, hnone]
      rw [if_neg Bool.false_ne_true, heq]
      refine ⟨⟨hsecond.emit (allowed_of ?_ ?_ ?_), ?_, hnone, rfl, fun h => by cases h⟩, fun _ => rfl,
        hs.posted, hs.freed, hs.released⟩
      · rw [hview₂]
        exact ⟨rfl, rfl⟩
      · rw [hview₂]
      · rw [hview₂]
      · show _ = View.mk none a.ioHandle.isSome (some user) none inside a.destroyed a.freed
        rw [hnone, hd, hf]
        show view (a.log ++ es ++ [.callback user] ++ [.ioRegister fd false] ++ [.closeFd fd]) = _
        rw [view_concat, hview₂]
        rfl

theorem listen_sound (h : Sound inside a) (hd : a.destroyed = false) (hf : a.freed = false)
    (addr : Option Bytes) (port : Nat) (backlog : Int) (onAccept : Option Nat) (k : Answers) :
    Sound inside (a.listen addr port backlog onAccept k).2 ∧
      (a.listen addr port backlog onAccept k).2.destroyed = false ∧
      (a.listen addr port backlog onAccept k).2.freed = false := by
  unfold listen
  cases onAccept with
  | none => exact ⟨h, hd, hf⟩
  | some user =>
      cases hfd : a.fd with
      | some fd => exact ⟨h, hd, hf⟩
      | none =>
          dsimp only
          generalize (if backlog ≤ 0 then backlogDefault else backlog) = backlog
          cases k.socket with
          | none => exact ⟨h, hd, hf⟩
          | some fd =>
              have hfail : ∀ {a'}, Trying inside fd a a' → Sound inside (a'.emit (.closeFd fd)) ∧
                  (a'.emit (.closeFd fd)).destroyed = false ∧ (a'.emit (.closeFd fd)).freed = false := by
                intro a' ht
                refine ⟨ht.failed h hd hfd hf, ?_⟩
                obtain ⟨es, rfl⟩ := ht.same
                exact ⟨hd, hf⟩
              have h₀ := Trying.start h hd hfd hf fd
              have h₁ := h₀.emit (e := .bind fd addr port) (by rw [h₀.seen]; rfl) rfl
              have h₂ := h₁.emit (e := .listen fd backlog) (by rw [h₁.seen]; rfl) rfl
              dsimp only
              split
              · exact hfail h₀
              split
              · exact hfail h₀
              split
              · exact hfail h₁
              split
              · exact hfail h₂
              cases k.name with
              | none => exact hfail h₂
              | some name =>
                  have hdone := h₂.done h hd hfd hf name user k.ioOk
                  cases hok : k.ioOk with
                  | true =>
                      rw [hok] at hdone
                      exact ⟨hdone, hd, hf⟩
                  | false =>
                      rw [hok] at hdone
                      obtain ⟨hkd, hkf, -⟩ := closeIo_kept _
                      exact ⟨hdone, hkd.trans hd, hkf.trans hf⟩

-- acc_cleanup.
theorem cleanup_steady (h : Steady inside a) (hd : a.destroyed = true) (hfd : a.fd = none)
    (hf : a.freed = false) : Steady inside a.cleanup := by
  have hhandle : a.ioHandle.isSome = false := by rw [h.handle, hfd]; rfl
  have hallowed : Allowed a.log .freed := by
    refine allowed_of ?_ ?_ ?_ <;> rw [h.seen]
    · exact ⟨hd, hfd, hhandle⟩
    · exact hf
  refine ⟨h.legal.emit hallowed, ?_, h.handle, h.port, h.user⟩
  rw [cleanup, Acceptor.emit, view_concat, h.seen]
  rfl

theorem destroy_sound (h : Sound inside a) (hd : a.destroyed = false) (hf : a.freed = false)
    (postOk : Bool) : Sound inside (a.destroy postOk) := by
  have hnop : a.posted = false := by
    by_contra hp
    cases hd.symm.trans (h.posted (by simpa using hp)).1
  have hgone : Steady inside { a.emit .destroyCall with destroyed := true } := by
    have hallowed : Allowed a.log .destroyCall := by
      refine allowed_of ?_ ?_ ?_ <;> rw [h.seen]
      · exact hd
      · exact hf
    refine ⟨h.legal.emit hallowed, ?_, h.handle, h.port, h.user⟩
    rw [Acceptor.emit, view_concat, h.seen]
    rfl
  obtain ⟨hsteady, hfd⟩ := closeIo_steady hgone hf
  obtain ⟨hkd, hkf, hkp⟩ := closeIo_kept { a.emit .destroyCall with destroyed := true }
  unfold destroy
  dsimp only
  generalize closeIo { a.emit .destroyCall with destroyed := true } = b at hsteady hfd hkd hkf hkp ⊢
  have hbf : b.freed = false := hkf.trans hf
  have hhandle : b.ioHandle.isSome = false := by rw [hsteady.handle, hfd]; rfl
  have hposted : Allowed b.log (.posted postOk) := by
    refine allowed_of ?_ ?_ ?_ <;> rw [hsteady.seen]
    · exact ⟨hkd, hfd, hhandle⟩
    · exact hbf
  have hseen : view (b.log ++ [.posted postOk]) = view b.log := by
    rw [view_concat]
    rfl
  have hsteady' : Steady inside (b.emit (.posted postOk)) :=
    ⟨hsteady.legal.emit hposted, hseen.trans hsteady.seen, hsteady.handle, hsteady.port, hsteady.user⟩
  cases postOk with
  | true =>
      rw [if_pos rfl]
      exact ⟨⟨hsteady'.legal, hsteady'.seen, hsteady'.handle, hsteady'.port, hsteady'.user⟩,
        fun _ => hfd, fun _ => ⟨hkd, hbf⟩, (fun hfreed => by cases hfreed.symm.trans hbf),
        fun _ => .inl rfl⟩
  | false =>
      rw [if_neg Bool.false_ne_true]
      have hclean := cleanup_steady hsteady' hkd hfd hbf
      have hnop' : (b.emit (.posted false)).cleanup.posted = false := hkp.trans hnop
      exact ⟨hclean, fun _ => hfd, (fun hp => by cases hp.symm.trans hnop'), fun _ => hkd,
        fun _ => .inr rfl⟩

theorem Sound.live (h : Sound inside a) (hd : ¬ a.destroyed = true) :
    a.destroyed = false ∧ a.freed = false := by
  refine ⟨by simpa using hd, ?_⟩
  by_contra hf
  exact hd (h.freed (by simpa using hf))

theorem call_sound (c : Call) (h : Sound inside a) : Sound inside (a.call c) := by
  unfold call
  split
  · exact h
  · rename_i hd
    obtain ⟨hd, hf⟩ := h.live hd
    cases c with
    | close => exact closeIo_sound h hf
    | destroy postOk => exact destroy_sound h hd hf postOk
    | listen addr port backlog onAccept k =>
        obtain ⟨hsound, hd', hf'⟩ := listen_sound h hd hf addr port backlog onAccept k
        refine hsound.emit ?_ hf' rfl
        rw [hsound.seen]
        exact hd'

theorem calls_sound (script : List Call) (h : Sound inside a) :
    Sound inside (script.foldl (fun a c => a.call c) a) := by
  induction script generalizing a with
  | nil => exact h
  | cons c rest ih => exact ih (call_sound c h)

-- A descriptor comes, and the callback that was set with the socket is given it.
theorem handed_sound (h : Sound false a) (hfd : a.fd ≠ none) (fd : Nat) :
    Sound true ((a.emit (.accept fd)).emit (.onAccept a.onAccept fd)) := by
  have hd : a.destroyed = false := by
    by_contra hd
    exact hfd (h.shut (by simpa using hd))
  have hf := (h.live (by simp [hd])).2
  have hopen : a.fd.isSome = true := Option.isSome_iff_ne_none.mpr hfd
  have hregistered : a.ioHandle.isSome = true := by rw [h.handle, hopen]
  have haccept : Allowed a.log (.accept fd) := by
    refine allowed_of ?_ ?_ ?_ <;> rw [h.seen]
    · exact ⟨hregistered, rfl⟩
    · exact hf
  have hview : view (a.log ++ [.accept fd]) =
      ⟨a.fd, a.ioHandle.isSome, a.onAccept, some fd, false, a.destroyed, a.freed⟩ := by
    rw [view_concat, h.seen]
    rfl
  have honAccept : Allowed (a.log ++ [.accept fd]) (.onAccept a.onAccept fd) := by
    refine ⟨?_, ?_, fun _ => ⟨a.onAccept, fd, rfl⟩⟩ <;> rw [hview]
    · exact ⟨rfl, rfl, h.user hopen⟩
    · exact fun hfreed => by cases hfreed.symm.trans hf
  refine ⟨⟨(h.legal.emit haccept).emit honAccept, ?_, h.handle, h.port, h.user⟩, h.shut, h.posted, h.freed,
    h.released⟩
  show view (a.log ++ [.accept fd] ++ [.onAccept a.onAccept fd]) = _
  rw [view_concat, hview]
  rfl

theorem checked_sound (h : Sound true a) : Sound false (a.emit .checked) := by
  have hallowed : Allowed a.log .checked := by
    refine ⟨?_, fun _ => rfl, fun hp => ?_⟩
    · rw [h.seen]
      rfl
    · rw [h.seen] at hp
      exact absurd rfl hp
  refine ⟨⟨h.legal.emit hallowed, ?_, h.handle, h.port, h.user⟩, h.shut, h.posted, h.freed,
    h.released⟩
  rw [Acceptor.emit, view_concat, h.seen]
  rfl

theorem acceptLoop_sound (ready : List (Nat × List Call)) (h : Sound false a) :
    Sound false (acceptLoop ready a) := by
  induction ready generalizing a with
  | nil => exact h
  | cons p rest ih =>
      obtain ⟨fd, script⟩ := p
      unfold acceptLoop
      split
      · exact h
      · rename_i hfd
        have hchecked := checked_sound (calls_sound script (handed_sound h hfd fd))
        dsimp only
        split
        · exact hchecked
        · exact ih hchecked

theorem step_sound (i : Input) (h : Sound false a) : Sound false (a.step i) := by
  cases i with
  | call c => exact call_sound c h
  | readable ready =>
      simp only [step, onAcceptReady]
      split_ifs
      · exact h
      · exact acceptLoop_sound ready h
      · exact h
  | posts =>
      simp only [step]
      split_ifs with hp
      · obtain ⟨hd, hf⟩ := h.posted hp
        have hclean := cleanup_steady h.toSteady hd (h.shut hd) hf
        exact ⟨⟨hclean.legal, hclean.seen, hclean.handle, hclean.port, hclean.user⟩, fun _ => h.shut hd,
          (fun hp => by cases hp), fun _ => hd, fun _ => .inr rfl⟩
      · exact h

theorem run_sound (inputs : List Input) (h : Sound false a) : Sound false (a.run inputs) := by
  induction inputs generalizing a with
  | nil => exact h
  | cons i rest ih => exact ih (step_sound i h)

-- ---- what follows from it ----

def Event.opened : Event → Option Nat
  | .socket fd => some fd
  | _ => none

def Event.closed : Event → Option Nat
  | .closeFd fd => some fd
  | _ => none

def Event.accepted : Event → Option Nat
  | .accept fd => some fd
  | _ => none

def Event.handed : Event → Option Nat
  | .onAccept _ fd => some fd
  | _ => none

-- No call of the user hands a descriptor over.
theorem call_handed (a : Acceptor) (c : Call) :
    (a.call c).log.filterMap Event.handed = a.log.filterMap Event.handed := by
  have hemit : ∀ (a : Acceptor) (e : Event), e.handed = none →
      (a.emit e).log.filterMap Event.handed = a.log.filterMap Event.handed := by
    intro a e he
    rw [Acceptor.emit, List.filterMap_append, List.filterMap_cons_none he, List.filterMap_nil, List.append_nil]
  have hclose : ∀ a : Acceptor, a.closeIo.log.filterMap Event.handed = a.log.filterMap Event.handed := by
    intro a
    unfold closeIo
    dsimp only
    split <;> split <;> simp [emit, Event.handed]
  unfold call
  split
  · rfl
  cases c with
  | listen addr port backlog onAccept k =>
      dsimp only
      rw [hemit _ _ rfl]
      unfold listen
      dsimp only
      repeat' split
      all_goals simp [hclose, emit, Event.handed]
  | close => exact hclose a
  | destroy postOk =>
      have hposted := hemit ({ a.emit .destroyCall with destroyed := true } : Acceptor).closeIo (.posted postOk) rfl
      rw [hclose] at hposted
      dsimp only
      unfold destroy
      dsimp only
      split
      · exact hposted.trans (hemit a .destroyCall rfl)
      · exact (hemit _ .freed rfl).trans (hposted.trans (hemit a .destroyCall rfl))

-- The listener takes one descriptor and hands it over.
theorem step_one {a : Acceptor} (hd : a.destroyed = false) (hfd : a.fd.isSome = true) (hio : a.ioHandle.isSome = true)
    (fd : Nat) : a.step (.readable [(fd, [])]) = ((a.emit (.accept fd)).emit (.onAccept a.onAccept fd)).emit .checked := by
  have hopen : ¬ a.fd = none := Option.isSome_iff_ne_none.mp hfd
  have hlive : ¬ a.destroyed = true := by rw [hd]; decide
  simp only [step, onAcceptReady, acceptLoop, if_pos hio, if_neg hlive, if_neg hopen]
  split <;> rfl

theorem call_destroyed (a : Acceptor) (postOk : Bool) : (a.call (.destroy postOk)).destroyed = true := by
  unfold call
  split
  · assumption
  dsimp only
  unfold destroy
  dsimp only
  obtain ⟨hkept, -, -⟩ := closeIo_kept ({ a.emit .destroyCall with destroyed := true } : Acceptor)
  split <;> exact hkept

-- The acceptor is released while on_accept runs, and it is read when it is gone.
def FreedInside (past : List Event) (e : Event) : Prop := e = .freed ∧ (view past).inside = true

def ReadFreed (past : List Event) (e : Event) : Prop := e = .checked ∧ (view past).freed = true

section

variable {log : List Event}

-- Every socket but the one that is open has been closed once, in turn.
theorem Legal.opened_closed (h : Legal log) :
    log.filterMap Event.opened = log.filterMap Event.closed ++ (view log).fd.toList := by
  induction log using List.reverseRecOn with
  | nil => rfl
  | append_singleton log e ih =>
      obtain ⟨hlog, hallows, -, -⟩ := (atEach_concat _ _ _).mp h
      rw [List.filterMap_append, List.filterMap_append, ih hlog, view_concat]
      cases e with
      | socket fd => simp [List.filterMap_cons, Event.opened, Event.closed, View.next, hallows.1]
      | closeFd fd => simp [List.filterMap_cons, Event.opened, Event.closed, View.next, hallows.1]
      | _ => simp [List.filterMap_cons, Event.opened, Event.closed, View.next]

-- Every descriptor that has come has been handed over once, in turn.
theorem Legal.accepted_handed (h : Legal log) :
    log.filterMap Event.accepted = log.filterMap Event.handed ++ (view log).pending.toList := by
  induction log using List.reverseRecOn with
  | nil => rfl
  | append_singleton log e ih =>
      obtain ⟨hlog, hallows, -, hpending⟩ := (atEach_concat _ _ _).mp h
      rw [List.filterMap_append, List.filterMap_append, ih hlog, view_concat]
      cases e with
      | accept fd =>
          have hnone : (view log).pending = none := by
            by_contra hp
            obtain ⟨user, fd', he⟩ := hpending hp
            cases he
          simp [List.filterMap_cons, Event.accepted, Event.handed, View.next, hnone]
      | onAccept user fd => simp [List.filterMap_cons, Event.accepted, Event.handed, View.next, hallows.1]
      | _ => simp [List.filterMap_cons, Event.accepted, Event.handed, View.next]

theorem Legal.freed_once (h : Legal log) : log.count .freed = (view log).freed.toNat := by
  induction log using List.reverseRecOn with
  | nil => rfl
  | append_singleton log e ih =>
      obtain ⟨hlog, -, hfreed, -⟩ := (atEach_concat _ _ _).mp h
      rw [List.count_append, ih hlog, view_concat]
      cases e with
      | freed =>
          have hnot : (view log).freed = false := by
            by_contra hf
            cases hfreed (by simpa using hf)
          simp [View.next, hnot]
      | _ => simp [View.next]

theorem somewhere_concat (P : List Event → Event → Prop) (log : List Event) (e : Event) :
    Somewhere P (log ++ [e]) ↔ Somewhere P log ∨ P log e := by
  rw [← not_iff_not, not_somewhere_iff, atEach_concat, ← not_somewhere_iff, not_or]

-- Until the check behind the callback, an acceptor that was released in it is not read.
theorem Legal.freed_inside (h : Legal log) :
    ((view log).freed = true → (view log).inside = true → Somewhere FreedInside log) ∧
      (Somewhere ReadFreed log → Somewhere FreedInside log) ∧
      (Somewhere FreedInside log → Somewhere ReadFreed log ∨
        (view log).inside = true ∧ (view log).freed = true) := by
  induction log using List.reverseRecOn with
  | nil =>
      have hnone : ∀ P : List Event → Event → Prop, ¬ Somewhere P [] := fun P =>
        (not_somewhere_iff P []).mpr (atEach_nil _)
      exact ⟨fun h => (by cases h), fun h => absurd h (hnone _), fun h => absurd h (hnone _)⟩
  | append_singleton log e ih =>
      obtain ⟨hlog, hallows, hgone, -⟩ := (atEach_concat _ _ _).mp h
      obtain ⟨ha, hb, hc⟩ := ih hlog
      simp only [somewhere_concat, view_concat]
      by_cases he : e = .checked
      · subst he
        have hinside : (view log).inside = true := hallows
        refine ⟨(fun _ h => by cases h), ?_, ?_⟩
        · rintro (h | ⟨-, hf⟩)
          · exact .inl (hb h)
          · exact .inl (ha hf hinside)
        · rintro (h | ⟨h, -⟩)
          · rcases hc h with hr | ⟨-, hf⟩
            · exact .inl (.inl hr)
            · exact .inl (.inr ⟨rfl, hf⟩)
          · cases h
      -- nothing else happens to an acceptor that is gone
      have hthere : (view log).freed = false := by
        by_contra hf
        exact he (hgone (by simpa using hf))
      have hread : ¬ ReadFreed log e := fun h => he h.1
      have hold : Somewhere FreedInside log → Somewhere ReadFreed log := fun h =>
        (hc h).resolve_right fun ⟨_, hf⟩ => by cases hf.symm.trans hthere
      by_cases hfree : e = .freed
      · subst hfree
        refine ⟨fun _ hin => .inr ⟨rfl, hin⟩, ?_, ?_⟩
        · rintro (h | h)
          · exact .inl (hb h)
          · exact absurd h hread
        · rintro (h | ⟨-, hin⟩)
          · exact .inl (.inl (hold h))
          · exact .inr ⟨hin, rfl⟩
      · have hsame : ((view log).next e).freed = false := by
          rw [← hthere]
          cases e with
          | freed => exact absurd rfl hfree
          | _ => rfl
        refine ⟨(fun hf => by cases hf.symm.trans hsame), ?_, ?_⟩
        · rintro (h | h)
          · exact .inl (hb h)
          · exact absurd h hread
        · rintro (h | h)
          · exact .inl (.inl (hold h))
          · exact absurd h.1 hfree

end

-- From listen to release. Each accepted descriptor reaches on_accept once and in turn, each socket is
-- closed once but the one that listens, and the acceptor is released at most once. It is read after
-- that only if it was destroyed in on_accept and could not be posted.
theorem connections_handed_over (inputs : List Input) :
    let a := create.run inputs
    Legal a.log ∧
      a.log.filterMap Event.accepted = a.log.filterMap Event.handed ∧
      a.log.filterMap Event.opened = a.log.filterMap Event.closed ++ a.fd.toList ∧
      a.ioHandle = a.fd ∧ a.port.isSome = a.fd.isSome ∧
      (a.destroyed = true → a.fd = none ∧ (a.posted = true ∨ a.freed = true)) ∧
      a.log.count .freed = a.freed.toNat ∧
      (Somewhere ReadFreed a.log ↔ Somewhere FreedInside a.log) := by
  intro a
  have h : Sound false a := run_sound inputs create_sound
  have hhanded := h.legal.accepted_handed
  have hclosed := h.legal.opened_closed
  have hfreed := h.legal.freed_once
  obtain ⟨-, hread, hinside⟩ := h.legal.freed_inside
  rw [h.seen] at hhanded hclosed hfreed hinside
  refine ⟨h.legal, ?_, hclosed, h.handle, h.port, fun hd => ⟨h.shut hd, h.released hd⟩, hfreed,
    hread, fun hin => ?_⟩
  · rw [hhanded, Option.toList_none, List.append_nil]
  · rcases hinside hin with hr | ⟨hi, -⟩
    · exact hr
    · cases hi

-- The loop has no memory for the post.
example :
    let answers : Answers := ⟨some 3, true, true, true, true, some 80, true⟩
    let a := create.run [.call (.listen none 80 0 (some 5) answers), .readable [(7, [.destroy false])]]
    a.log.drop 6 = [.accept 7, .onAccept (some 5) 7, .destroyCall, .ioUnregister, .closeFd 3,
      .posted false, .freed, .checked] := rfl

end Acceptor

end Sevent.Tcp
