import Mathlib.Data.List.Basic

-- The select loop of sevent.c: IO handles, timers and posted tasks.
-- Nodes are known to callers by their address; `uid` numbers registrations and exists
-- only in the log.
namespace Sevent.Loop

def intMax : Nat := 2147483647

-- Conversion to the C `int` of the target (two's complement, 32 bits).
def toInt (x : Int) : Int := x.bmod 4294967296

theorem toInt_of_small {x : Int} (hlo : 0 ≤ x) (hhi : x ≤ intMax) : toInt x = x := by
  unfold toInt intMax at *
  rw [Int.bmod_eq_of_le] <;> omega

theorem toInt_succ (n : Nat) : toInt (toInt n + 1) = toInt (n + 1 : Nat) := by
  simp only [toInt, Int.bmod_add_bmod, Int.natCast_add, Int.cast_ofNat_Int]

theorem toInt_pred (n : Nat) : toInt (toInt (n + 1 : Nat) - 1) = toInt n := by
  simp only [toInt, Int.bmod_sub_bmod, Int.natCast_add, Int.cast_ofNat_Int, Int.add_sub_cancel]

theorem toInt_eq_iff (n : Nat) : toInt n = n ↔ n ≤ intMax := by
  constructor
  · intro h
    have hlt : toInt n < (4294967296 + 1) / 2 := Int.bmod_lt (by decide)
    unfold intMax
    omega
  · exact fun h => toInt_of_small (Int.natCast_nonneg n) (Int.ofNat_le.mpr h)

def fdSetSize : Nat := 1024
def maxExpiredPerTick : Nat := 32
def maxFirePerTimer : Nat := 100

structure Io where
  addr : Nat
  uid : Nat
  fd : Nat
  readCb : Bool
  writeCb : Bool
  deleted : Bool
  deriving DecidableEq, Repr

structure Timer where
  addr : Nat
  uid : Nat
  intervalMs : UInt32
  remainingMs : Int
  deleted : Bool
  deriving DecidableEq, Repr

inductive Event where
  | select (delta : Nat)
  | ioRegistered (uid : Nat)
  | ioUnregistered (uid : Nat)
  | ioFired (uid : Nat)
  | ioFreed (uid : Nat)
  | timerRegistered (uid : Nat) (intervalMs : UInt32)
  | timerUnregistered (uid : Nat)
  | timerFired (uid : Nat)
  | timerFreed (uid : Nat)
  | posted (uid : Nat)
  | postRan (uid : Nat)
  deriving DecidableEq, Repr

structure Context where
  ioList : List Io
  deathIo : List Io
  timerList : List Timer
  deathTimer : List Timer
  postPending : List Nat
  ioCount : Int
  timerCount : Int
  postPendingCount : Int
  nextUid : Nat
  log : List Event
  deriving DecidableEq, Repr

def create : Context :=
  { ioList := [], deathIo := [], timerList := [], deathTimer := [], postPending := [],
    ioCount := 0, timerCount := 0, postPendingCount := 0, nextUid := 0, log := [] }

namespace Context

def emit (c : Context) (e : Event) : Context := { c with log := c.log ++ [e] }

-- The allocator never hands out the address of a node that is still allocated.
def alloc (c : Context) (pick : Option Nat) : Option Nat :=
  match pick with
  | none => none
  | some a =>
      if a ∈ (c.ioList ++ c.deathIo).map Io.addr ∨
          a ∈ (c.timerList ++ c.deathTimer).map Timer.addr then none
      else some a

def ioRegister (c : Context) (fd : Int) (ioRead ioWrite : Bool) (pick : Option Nat) : Context :=
  if fd < 0 ∨ fd ≥ fdSetSize then c
  else if !ioRead && !ioWrite then c
  else match c.alloc pick with
    | none => c
    | some a =>
        if c.ioList.any (fun p => p.fd = fd.toNat ∧ !p.deleted) then c
        else
          let io : Io :=
            { addr := a, uid := c.nextUid, fd := fd.toNat, readCb := ioRead, writeCb := ioWrite,
              deleted := false }
          { c with
            ioList := io :: c.ioList, ioCount := toInt (c.ioCount + 1), nextUid := c.nextUid + 1 }.emit
              (.ioRegistered c.nextUid)

def ioUnregister (c : Context) (h : Nat) : Context :=
  match c.ioList.find? (·.addr = h) with
  | none => c
  | some io =>
      { c with
        ioList := c.ioList.eraseP (·.addr = h)
        ioCount := toInt (c.ioCount - 1)
        deathIo := { io with deleted := true } :: c.deathIo }.emit (.ioUnregistered io.uid)

def timerRegister (c : Context) (intervalMs : UInt32) (pick : Option Nat) : Context :=
  if intervalMs = 0 then c
  else match c.alloc pick with
    | none => c
    | some a =>
        let t : Timer :=
          { addr := a, uid := c.nextUid, intervalMs := intervalMs,
            remainingMs := toInt intervalMs.toNat, deleted := false }
        { c with
          timerList := t :: c.timerList, timerCount := toInt (c.timerCount + 1),
          nextUid := c.nextUid + 1 }.emit (.timerRegistered c.nextUid intervalMs)

def timerUnregister (c : Context) (h : Nat) : Context :=
  match c.timerList.find? (·.addr = h) with
  | none => c
  | some t =>
      { c with
        timerList := c.timerList.eraseP (·.addr = h)
        timerCount := toInt (c.timerCount - 1)
        deathTimer := { t with deleted := true } :: c.deathTimer }.emit (.timerUnregistered t.uid)

-- `ok` is false when the task node cannot be allocated.
def post (c : Context) (ok : Bool) : Context :=
  if !ok then c
  else
    { c with
      postPending := c.postPending ++ [c.nextUid]
      postPendingCount := toInt (c.postPendingCount + 1)
      nextUid := c.nextUid + 1 }.emit (.posted c.nextUid)

end Context

-- What a user callback may do with the loop it runs on.
inductive Act where
  | ioRegister (fd : Int) (ioRead ioWrite : Bool) (pick : Option Nat)
  | ioUnregister (h : Nat)
  | timerRegister (intervalMs : UInt32) (pick : Option Nat)
  | timerUnregister (h : Nat)
  | post (ok : Bool)
  deriving DecidableEq, Repr

def Act.run (a : Act) (c : Context) : Context :=
  match a with
  | .ioRegister fd r w pick => c.ioRegister fd r w pick
  | .ioUnregister h => c.ioUnregister h
  | .timerRegister ms pick => c.timerRegister ms pick
  | .timerUnregister h => c.timerUnregister h
  | .post ok => c.post ok

abbrev Script := List Act

def Script.run (s : Script) (c : Context) : Context := s.foldl (fun c a => a.run c) c

-- The scripts of the callbacks still to be made in a phase; a missing one does nothing.
def Script.next (scripts : List Script) : Script × List Script :=
  match scripts with
  | [] => ([], [])
  | s :: rest => (s, rest)

namespace Context

def runFreeDeath (c : Context) : Context :=
  { c with
    deathIo := [], deathTimer := [],
    log := c.log ++ c.deathIo.map (fun io => .ioFreed io.uid) ++
      c.deathTimer.map (fun t => .timerFreed t.uid) }

-- `next_timer` of run_build_fdset: an `unsigned int`, initially all ones.
def nextTimer (timers : List Timer) : Nat :=
  timers.foldl
    (fun next t =>
      let r := if 0 < t.remainingMs then t.remainingMs.toNat else 0
      if r < next then r else next)
    4294967295

structure FdSet where
  iosnap : List Io
  hasIo : Bool
  hasTimer : Bool
  timeoutMs : Nat
  deriving DecidableEq, Repr

-- Without a timer sevent_run_once waits for at most 50 ms.
def runBuildFdset (c : Context) : FdSet :=
  { iosnap := c.ioList.take fdSetSize
    hasIo := !c.ioList.isEmpty
    hasTimer := !c.timerList.isEmpty
    timeoutMs := if c.timerList.isEmpty then 50 else nextTimer c.timerList }

-- The `deleted` flag read through a pointer taken earlier in the round.
def ioDeleted (c : Context) (uid : Nat) : Bool :=
  !(c.ioList.any (fun io => io.uid = uid && !io.deleted))

def timerDeleted (c : Context) (uid : Nat) : Bool :=
  !(c.timerList.any (fun t => t.uid = uid && !t.deleted))

def runIoCallbacks (readable writable : List Nat) :
    List Io → List Script → Context → Context
  | [], _, c => c
  | io :: snap, scripts, c =>
      if c.ioDeleted io.uid then runIoCallbacks readable writable snap scripts c
      else if io.fd ≥ fdSetSize then runIoCallbacks readable writable snap scripts c
      else if (io.readCb && readable.contains io.fd) || (io.writeCb && writable.contains io.fd) then
        let (s, rest) := Script.next scripts
        runIoCallbacks readable writable snap rest (s.run (c.emit (.ioFired io.uid)))
      else runIoCallbacks readable writable snap scripts c

def runPostBatch : List Nat → List Script → Context → Context
  | [], _, c => c
  | p :: batch, scripts, c =>
      let (s, rest) := Script.next scripts
      runPostBatch batch rest (s.run (c.emit (.postRan p)))

-- The pending queue is swapped out first, so tasks posted by the batch wait for the next round.
def runPosts (scripts : List Script) (c : Context) : Context :=
  runPostBatch c.postPending scripts { c with postPending := [], postPendingCount := 0 }

end Context

-- `while(remaining_ms <= 0 && fire_count < MAX_FIRE_PER_TIMER)`: the fires and what remains.
def catchUp (intervalMs : UInt32) : Nat → Int → Nat × Int
  | 0, remaining => (0, remaining)
  | fuel + 1, remaining =>
      if remaining ≤ 0 then
        let (times, left) := catchUp intervalMs fuel (toInt (remaining + toInt intervalMs.toNat))
        (times + 1, left)
      else (0, remaining)

-- Phase A of run_timers over the list, given how many entries `expired` already has.
def collectExpired (delta : Nat) : List Timer → Nat → List Timer × List (Nat × Nat)
  | [], _ => ([], [])
  | t :: rest, n =>
      if t.deleted then
        let (ts, ex) := collectExpired delta rest n
        (t :: ts, ex)
      else
        let remaining := toInt (t.remainingMs - toInt delta)
        let (times, left) := catchUp t.intervalMs maxFirePerTimer remaining
        if 0 < times ∧ n < maxExpiredPerTick then
          let (ts, ex) := collectExpired delta rest (n + 1)
          ({ t with remainingMs := left } :: ts, (t.uid, times) :: ex)
        else if 0 < times then
          let (ts, ex) := collectExpired delta rest n
          ({ t with remainingMs := 1 } :: ts, ex)
        else
          let (ts, ex) := collectExpired delta rest n
          ({ t with remainingMs := left } :: ts, ex)

namespace Context

-- The burst of one expired timer; it stops when the timer has been unregistered.
def fireBurst (uid : Nat) : Nat → List Script → Context → Context × List Script
  | 0, scripts, c => (c, scripts)
  | times + 1, scripts, c =>
      if c.timerDeleted uid then (c, scripts)
      else
        let (s, rest) := Script.next scripts
        fireBurst uid times rest (s.run (c.emit (.timerFired uid)))

def fireExpired : List (Nat × Nat) → List Script → Context → Context
  | [], _, c => c
  | (uid, times) :: rest, scripts, c =>
      let (c, scripts) := fireBurst uid times scripts c
      fireExpired rest scripts c

def runTimers (hasTimer : Bool) (delta : Nat) (scripts : List Script) (c : Context) : Context :=
  if !hasTimer || delta = 0 then c
  else
    let (timers, expired) := collectExpired delta c.timerList 0
    fireExpired expired scripts { c with timerList := timers }

end Context

inductive SelectResult where
  | ready (readable writable : List Nat)
  | eintr
  | ebadf
  | failed
  deriving DecidableEq, Repr

-- What the outside world decides in one round of sevent_run_once.
structure Round where
  elapsed : Int
  result : SelectResult
  ioScripts : List Script
  postScripts : List Script
  timerScripts : List Script
  deriving DecidableEq, Repr

-- `delta` after the select: never negative, and at least 1 after EBADF.
def Round.delta (r : Round) : Nat :=
  match r.result with
  | .ebadf => max 1 r.elapsed.toNat
  | _ => r.elapsed.toNat

def Context.runOnce (r : Round) (c : Context) : Context :=
  let c := c.runFreeDeath
  let fds := c.runBuildFdset
  if fds.hasIo || fds.hasTimer then
    let c := c.emit (.select r.delta)
    match r.result with
    | .failed => c
    | .ready readable writable =>
        ((c.runIoCallbacks readable writable fds.iosnap r.ioScripts).runPosts
          r.postScripts).runTimers fds.hasTimer r.delta r.timerScripts
    | _ => (c.runPosts r.postScripts).runTimers fds.hasTimer r.delta r.timerScripts
  else
    (c.runPosts r.postScripts).runTimers fds.hasTimer 0 r.timerScripts

-- One step of a program that drives the loop: a round, or calls made between two rounds.
inductive Step where
  | round (r : Round)
  | calls (s : Script)
  deriving DecidableEq, Repr

def Step.run (s : Step) (c : Context) : Context :=
  match s with
  | .round r => c.runOnce r
  | .calls script => script.run c

def runSteps (steps : List Step) (c : Context) : Context := steps.foldl (fun c s => s.run c) c

end Sevent.Loop
