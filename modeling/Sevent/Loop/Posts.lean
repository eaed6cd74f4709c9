import Mathlib.Data.List.Forall2
import Mathlib.Data.List.Infix
import Sevent.Chain
import Sevent.Loop.Context

-- sevent_post between threads: what any number of posters and the thread of the loop do, one
-- step at a time. A step under `post_lock` is one step; so is a write or a read of the wake fd.
-- sevent_run_once is not called from a callback.
namespace Sevent.Loop.Posts

open Chain (Queue Linked)

-- Where a thread is in sevent_post.
inductive Poster where
  | idle
  -- the task is in the queue, sevent_wakeup not called yet
  | enqueued
  deriving DecidableEq, Repr

-- Where the loop is in sevent_run_once.
inductive Phase where
  | outside
  | build
  | select
  | drain
  | io
  | swap
  -- `active` of run_posts
  | batch (active : Option Nat)
  -- the callback of the node `a`
  | running (a : Nat) (next : Option Nat)
  | timers
  deriving DecidableEq, Repr

-- The thread of the loop runs code of the user.
def Phase.user : Phase → Bool
  | .outside | .io | .running .. | .timers => true
  | _ => false

-- run_posts has not yet swapped the queue of this round.
def Phase.beforeSwap : Phase → Bool
  | .build | .select | .drain | .io | .swap => true
  | _ => false

-- The wake fd may have been read since the last swap.
def Phase.drained : Phase → Bool
  | .drain | .io | .swap => true
  | _ => false

-- The node that is freed when the callback returns.
def Phase.held : Phase → List Nat
  | .running a _ => [a]
  | _ => []

-- What remains of the batch.
def Phase.active : Phase → Option Nat
  | .batch active => active
  | .running _ next => next
  | _ => none

-- A task as it has been enqueued, with the round; by a callback of the batch or not.
structure Posted (α : Type*) where
  item : α
  round : Nat
  byCallback : Bool

structure State (τ α : Type*) where
  -- `post_pending`, `post_pending_tail` and all nodes that are allocated
  posts : Queue α
  postPendingCount : Int
  -- what can be read from the wake fd
  tokens : Nat
  loopThread : Option τ
  phase : Phase
  poster : τ → Poster
  round : Nat
  posted : List (Posted α)
  -- the callbacks that have been called, with the round
  ran : List (α × Nat)

inductive SelectResult where
  -- neither EINTR nor EBADF
  | failed
  | interrupted
  | timeout
  | ready (wake : Bool)
  deriving DecidableEq, Repr

inductive LoopAct where
  | build (doSelect : Bool)
  | select (r : SelectResult)
  -- one read of sevent_wakeup_drain; it ends the loop when it gets nothing
  | drain (k : Nat)
  | ioDone
  | swap
  | next
  | ret
  | timersDone
  deriving DecidableEq, Repr

inductive Act (τ α : Type*) where
  -- `a` is what the allocator returns
  | enqueue (t : τ) (a : Nat) (x : α)
  | wake (t : τ) (ok : Bool)
  -- sevent_wakeup of anybody else
  | wakeup (ok : Bool)
  | enter (t : τ)
  | loop (l : LoopAct)

namespace State

variable {τ α : Type*}

def create : State τ α :=
  { posts := .empty, postPendingCount := 0, tokens := 0, loopThread := none, phase := .outside,
    poster := fun _ => .idle, round := 0, posted := [], ran := [] }

-- A write adds a token; it can only fail because of tokens that have not been read.
def wakeup (ok : Bool) (s : State τ α) : Option (State τ α) :=
  if ok then some { s with tokens := s.tokens + 1 }
  else if 0 < s.tokens then some s
  else none

-- The callbacks return, and sevent_post with them, before the loop goes on.
def loopReady (s : State τ α) : Prop := ∀ t, s.loopThread = some t → s.poster t = .idle

instance (s : State τ α) : Decidable s.loopReady :=
  match h : s.loopThread with
  | none => .isTrue fun t ht => by simp [h] at ht
  | some t => decidable_of_iff (s.poster t = .idle) (by simp [loopReady, h])

def loopStep (s : State τ α) (l : LoopAct) : Option (State τ α) :=
  match l, s.phase with
  | .build doSelect, .build => some { s with phase := if doSelect then .select else .swap }
  | .select r, .select =>
      match r with
      | .failed => some { s with phase := .outside }
      | .interrupted | .timeout => some { s with phase := .swap }
      | .ready wake => some { s with phase := if wake then .drain else .io }
  | .drain k, .drain =>
      if k = 0 then some { s with phase := .io }
      else if k ≤ s.tokens then some { s with tokens := s.tokens - k }
      else none
  | .ioDone, .io => some { s with phase := .swap }
  | .swap, .swap =>
      some { s with
        posts := s.posts.detach, postPendingCount := 0, phase := .batch s.posts.head }
  | .next, .batch none => some { s with phase := .timers }
  | .next, .batch (some a) =>
      (s.posts.heap a).map fun n =>
        { s with phase := .running a n.next, ran := s.ran ++ [(n.item, s.round)] }
  | .ret, .running a next => some { s with posts := s.posts.free a, phase := .batch next }
  | .timersDone, .timers => some { s with phase := .outside }
  | _, _ => none

variable [DecidableEq τ]

def inCallback (t : τ) (s : State τ α) : Bool :=
  match s.phase with
  | .running .. => s.loopThread = some t
  | _ => false

def enqueue (t : τ) (a : Nat) (x : α) (s : State τ α) : State τ α :=
  { s with
    posts := s.posts.push a x
    postPendingCount := toInt (s.postPendingCount + 1)
    poster := Function.update s.poster t .enqueued
    posted := s.posted ++ [⟨x, s.round, s.inCallback t⟩] }

-- `none` when this step cannot be the next one.
def step (s : State τ α) : Act τ α → Option (State τ α)
  | .enqueue t a x =>
      if s.poster t = .idle ∧ s.posts.heap a = none ∧ (s.loopThread = some t → s.phase.user) then
        some (s.enqueue t a x)
      else none
  | .wake t ok =>
      if s.poster t = .enqueued then
        (s.wakeup ok).map fun s => { s with poster := Function.update s.poster t .idle }
      else none
  | .wakeup ok => s.wakeup ok
  | .enter t =>
      if s.phase = .outside ∧ s.poster t = .idle then
        some { s with loopThread := some t, phase := .build, round := s.round + 1 }
      else none
  | .loop l => if s.loopReady then s.loopStep l else none

def run (s : State τ α) (acts : List (Act τ α)) : Option (State τ α) := acts.foldlM step s

-- A task has been run as the one that was enqueued; in a later round if a callback of the batch
-- has enqueued it.
def Later (p : Posted α) (r : α × Nat) : Prop :=
  p.item = r.1 ∧ (p.byCallback = true → p.round < r.2)

-- Of what has been enqueued, `done` has been run, `mine` is in the batch, `waiting` in the queue.
structure Split (s : State τ α) (done mine waiting : List (Posted α))
    (rest pending : List (Nat × α)) : Prop where
  posted : s.posted = done ++ mine ++ waiting
  ran : List.Forall₂ Later done s.ran
  batch : mine.map Posted.item = rest.map Prod.snd
  queue : waiting.map Posted.item = pending.map Prod.snd
  earlier : ∀ p ∈ mine, p.byCallback = true → p.round < s.round
  bound : ∀ p ∈ waiting, p.byCallback = true → p.round ≤ s.round
  before : s.phase.beforeSwap = true → ∀ p ∈ waiting, p.byCallback = true → p.round < s.round
  linked : Linked s.posts.heap s.phase.active rest
  holds : s.posts.Holds pending
  apart : (s.phase.held ++ rest.map Prod.fst ++ pending.map Prod.fst).Nodup
  held : ∀ a ∈ s.phase.held, s.posts.heap a ≠ none
  count : s.postPendingCount = toInt pending.length
  ready : s.phase.user = false → s.loopReady
  woken : s.phase.drained = false → pending ≠ [] → 0 < s.tokens ∨ ∃ t, s.poster t = .enqueued

def Inv (s : State τ α) : Prop :=
  ∃ done mine waiting rest pending, Split s done mine waiting rest pending

omit [DecidableEq τ] in
theorem create_inv : Inv (create : State τ α) :=
  ⟨[], [], [], [], [],
    { posted := rfl, ran := .nil, batch := rfl, queue := rfl, earlier := nofun, bound := nofun
      before := nofun, linked := rfl, holds := .empty, apart := List.nodup_nil, held := nofun
      count := (toInt_of_small (Int.le_refl 0) (by decide)).symm, ready := nofun, woken := fun _ h => absurd rfl h }⟩

section Steps

variable {s s' : State τ α} {done mine waiting : List (Posted α)} {rest pending : List (Nat × α)}

-- ---- the posters ----

theorem Split.enqueue (h : Split s done mine waiting rest pending) {t : τ} {a : Nat} (x : α)
    (ha : s.posts.heap a = none) (huser : s.loopThread = some t → s.phase.user = true) :
    Split (s.enqueue t a x) done mine (waiting ++ [⟨x, s.round, s.inCallback t⟩]) rest
      (pending ++ [(a, x)]) := by
  have hrest : a ∉ rest.map Prod.fst := fun hmem => h.linked.mem hmem ha
  have hheld : a ∉ s.phase.held := fun hmem => h.held a hmem ha
  have hpending : a ∉ pending.map Prod.fst := fun hmem => h.holds.linked.mem hmem ha
  have hapart := List.nodup_append.mp h.apart
  have hlast : ∀ p ∈ waiting ++ [⟨x, s.round, s.inCallback t⟩],
      p ∈ waiting ∨ p = ⟨x, s.round, s.inCallback t⟩ := by simp
  constructor
  case posted => simp [State.enqueue, h.posted]
  case ran => exact h.ran
  case batch => exact h.batch
  case queue => simp [h.queue]
  case earlier => exact h.earlier
  case bound =>
    intro p hp hcb
    rcases hlast p hp with hp | rfl
    · exact h.bound p hp hcb
    · exact Nat.le_refl _
  case before =>
    intro hbefore p hp hcb
    rcases hlast p hp with hp | rfl
    · exact h.before hbefore p hp hcb
    · -- a callback of the batch runs after the swap
      simp only [State.enqueue] at hbefore
      simp only [inCallback] at hcb
      split at hcb
      · rename_i hphase
        simp [hphase, Phase.beforeSwap] at hbefore
      · cases hcb
  case linked =>
    refine Chain.Queue.push_linked h.linked ha (fun last hlast hmem => ?_) x
    exact hapart.2.2 _ (List.mem_append_right _ hmem) _ (h.holds.tail_mem hlast) rfl
  case holds => exact h.holds.push ha x
  case apart =>
    simp only [State.enqueue, List.map_append, List.map_cons, List.map_nil]
    rw [← List.append_assoc]
    refine List.nodup_append.mpr ⟨h.apart, by simp, ?_⟩
    simp only [List.mem_singleton]
    rintro b hb c rfl rfl
    simp only [List.mem_append] at hb
    rcases hb with (hb | hb) | hb
    · exact hheld hb
    · exact hrest hb
    · exact hpending hb
  case held => exact fun b hb => Chain.Queue.push_allocated (h.held b hb) x
  case count =>
    simp only [State.enqueue, h.count, List.length_append, List.length_singleton]
    exact toInt_succ _
  case ready =>
    intro hno u hu
    have hne : u ≠ t := by
      rintro rfl
      have := huser hu
      simp only [State.enqueue] at hno
      simp [this] at hno
    simp only [State.enqueue, Function.update_of_ne hne]
    exact h.ready hno u hu
  case woken =>
    intro _ _
    exact .inr ⟨t, by simp [State.enqueue]⟩

-- ---- the wake fd ----

omit [DecidableEq τ] in
theorem wakeup_eq {ok : Bool} (hs : s.wakeup ok = some s') :
    ∃ n, 0 < n ∧ s' = { s with tokens := n } := by
  unfold wakeup at hs
  split_ifs at hs with hok hpos
  · exact ⟨s.tokens + 1, Nat.succ_pos _, (Option.some.inj hs).symm⟩
  · exact ⟨s.tokens, hpos, (Option.some.inj hs).symm⟩

omit [DecidableEq τ] in
theorem Split.wakeup (h : Split s done mine waiting rest pending) {n : Nat} (hn : 0 < n) :
    Split { s with tokens := n } done mine waiting rest pending :=
  { h with woken := fun _ _ => .inl hn }

theorem Split.wake (h : Split s done mine waiting rest pending) {n : Nat} (hn : 0 < n) (t : τ) :
    Split { s with tokens := n, poster := Function.update s.poster t .idle } done mine waiting rest
      pending := by
  refine { h with ready := fun hno u hu => ?_, woken := fun _ _ => .inl hn }
  by_cases hut : u = t
  · simp [hut]
  · simp only [Function.update_of_ne hut]
    exact h.ready hno u hu

-- ---- the loop ----

omit [DecidableEq τ]

theorem Split.move (h : Split s done mine waiting rest pending) {p : Phase}
    (hactive : p.active = s.phase.active) (hheld : p.held = s.phase.held)
    (hbefore : p.beforeSwap = true → s.phase.beforeSwap = true)
    (hready : p.user = false → s.loopReady)
    (hdrained : p.drained = false → s.phase.drained = false) :
    Split { s with phase := p } done mine waiting rest pending :=
  { h with
    before := fun hp => h.before (hbefore hp)
    linked := hactive ▸ h.linked
    apart := hheld ▸ h.apart
    held := hheld ▸ h.held
    ready := hready
    woken := fun hp => h.woken (hdrained hp) }

theorem Split.enter (h : Split s done mine waiting rest pending) {t : τ} (hphase : s.phase = .outside)
    (hidle : s.poster t = .idle) :
    Split { s with loopThread := some t, phase := .build, round := s.round + 1 } done mine waiting
      rest pending := by
  have hlinked := h.linked
  have hapart := h.apart
  have hwoken := h.woken
  rw [hphase] at hlinked hapart hwoken
  exact
    { h with
      earlier := fun p hp hcb => Nat.lt_succ_of_lt (h.earlier p hp hcb)
      bound := fun p hp hcb => Nat.le_succ_of_le (h.bound p hp hcb)
      before := fun _ p hp hcb => Nat.lt_succ_of_le (h.bound p hp hcb)
      linked := hlinked
      apart := hapart
      held := nofun
      ready := fun _ u hu => by cases hu; exact hidle
      woken := fun _ => hwoken rfl }

theorem Split.drain (h : Split s done mine waiting rest pending) (hphase : s.phase = .drain)
    (n : Nat) : Split { s with tokens := n } done mine waiting rest pending :=
  { h with woken := fun hno => by simp [hphase, Phase.drained] at hno }

-- What was waiting is the batch now; nothing is left of the batch before.
theorem Split.swap (h : Split s done mine waiting rest pending) (hphase : s.phase = .swap)
    (hready : s.loopReady) :
    Split { s with posts := s.posts.detach, postPendingCount := 0, phase := .batch s.posts.head }
      done waiting [] pending [] := by
  have hlinked := h.linked
  have hapart := h.apart
  simp only [hphase, Phase.active, Phase.held, List.nil_append] at hlinked hapart
  obtain rfl : rest = [] := hlinked.unique rfl
  obtain rfl : mine = [] := List.map_eq_nil_iff.mp h.batch
  exact
    { posted := by simpa using h.posted
      ran := h.ran
      batch := h.queue
      queue := rfl
      earlier := h.before (by rw [hphase]; rfl)
      bound := nofun
      before := nofun
      linked := h.holds.linked
      holds := s.posts.detach_holds
      apart := by simpa [Phase.held] using hapart
      held := nofun
      count := (toInt_of_small (Int.le_refl 0) (by decide)).symm
      ready := fun _ => hready
      woken := fun _ hne => absurd rfl hne }

-- The callback of the first task of the batch is called.
theorem Split.next (h : Split s done mine waiting rest pending) {a : Nat} {n : Chain.Node α}
    (hphase : s.phase = .batch (some a)) (hn : s.posts.heap a = some n) :
    Inv { s with phase := .running a n.next, ran := s.ran ++ [(n.item, s.round)] } := by
  have hlinked := h.linked
  have hapart := h.apart
  have hwoken := h.woken
  rw [hphase] at hlinked hapart hwoken
  cases rest with
  | nil => cases hlinked
  | cons b rest =>
      obtain ⟨b, x⟩ := b
      obtain ⟨hb, next, hheap, hrest⟩ := hlinked
      cases hb
      cases hn.symm.trans hheap
      cases mine with
      | nil => cases h.batch
      | cons p mine =>
          have hbatch : p.item = x ∧ mine.map Posted.item = rest.map Prod.snd := by
            simpa using h.batch
          have hp := h.earlier p (List.mem_cons_self ..)
          refine ⟨done ++ [p], mine, waiting, rest, pending, ?_⟩
          exact
            { h with
              posted := by simpa using h.posted
              ran := List.rel_append h.ran (.cons ⟨hbatch.1, hp⟩ .nil)
              batch := hbatch.2
              earlier := fun q hq => h.earlier q (List.mem_cons_of_mem _ hq)
              before := nofun
              linked := hrest
              apart := hapart
              held := fun c hc => by
                cases List.mem_singleton.mp hc
                simp [hn]
              ready := nofun
              woken := fun _ => hwoken rfl }

-- The node of the callback that has returned is freed.
theorem Split.ret (h : Split s done mine waiting rest pending) {a : Nat} {next : Option Nat}
    (hphase : s.phase = .running a next) (hready : s.loopReady) :
    Split { s with posts := s.posts.free a, phase := .batch next } done mine waiting rest
      pending := by
  have hlinked := h.linked
  have hapart := h.apart
  have hwoken := h.woken
  rw [hphase] at hlinked hapart hwoken
  simp only [Phase.held, List.cons_append, List.nil_append, List.nodup_cons, List.mem_append,
    not_or] at hapart
  exact
    { h with
      before := nofun
      linked := hlinked.update hapart.1.1 none
      holds := h.holds.free hapart.1.2
      apart := hapart.2
      held := nofun
      ready := fun _ => hready
      woken := fun _ => hwoken rfl }

theorem loopStep_inv {l : LoopAct} (hs : s.loopStep l = some s') (hready : s.loopReady)
    (h : Inv s) : Inv s' := by
  obtain ⟨done, mine, waiting, rest, pending, h⟩ := h
  have hstay {p : Phase} (hactive : p.active = s.phase.active) (hheld : p.held = s.phase.held)
      (hbefore : p.beforeSwap = true → s.phase.beforeSwap = true)
      (hdrained : p.drained = false → s.phase.drained = false)
      (hp : some { s with phase := p } = some s') : Inv s' := by
    cases hp
    exact ⟨_, _, _, _, _, h.move hactive hheld hbefore (fun _ => hready) hdrained⟩
  unfold loopStep at hs
  split at hs
  case h_1 doSelect hphase =>
    cases doSelect <;> exact hstay (by simp [hphase, Phase.active]) (by simp [hphase, Phase.held])
      (by simp [hphase, Phase.beforeSwap]) (by simp [hphase, Phase.drained]) hs
  case h_2 r hphase =>
    have hstay {p : Phase} (hactive : p.active = none) (hheld : p.held = [])
        (hp : some { s with phase := p } = some s') : Inv s' :=
      hstay (by rw [hphase, hactive]; rfl) (by rw [hphase, hheld]; rfl)
        (by simp [hphase, Phase.beforeSwap]) (by simp [hphase, Phase.drained]) hp
    split at hs
    case h_4 wake => cases wake <;> exact hstay rfl rfl hs
    all_goals exact hstay rfl rfl hs
  case h_3 k hphase =>
    split_ifs at hs with hk hle
    · exact hstay (by simp [hphase, Phase.active]) (by simp [hphase, Phase.held])
        (by simp [hphase, Phase.beforeSwap]) (by simp [Phase.drained]) hs
    · cases hs
      exact ⟨_, _, _, _, _, h.drain hphase _⟩
  case h_4 hphase =>
    exact hstay (by simp [hphase, Phase.active]) (by simp [hphase, Phase.held])
      (by simp [hphase, Phase.beforeSwap]) (by simp [Phase.drained]) hs
  case h_5 hphase =>
    cases hs
    exact ⟨_, _, _, _, _, h.swap hphase hready⟩
  case h_6 hphase =>
    exact hstay (by simp [hphase, Phase.active]) (by simp [hphase, Phase.held])
      (by simp [Phase.beforeSwap]) (by simp [hphase, Phase.drained]) hs
  case h_7 a hphase =>
    obtain ⟨n, hn, rfl⟩ := Option.map_eq_some_iff.mp hs
    exact h.next hphase hn
  case h_8 a next hphase =>
    cases hs
    exact ⟨_, _, _, _, _, h.ret hphase hready⟩
  case h_9 hphase =>
    exact hstay (by simp [hphase, Phase.active]) (by simp [hphase, Phase.held])
      (by simp [Phase.beforeSwap]) (by simp [hphase, Phase.drained]) hs
  case h_10 => cases hs

end Steps

theorem step_inv {s s' : State τ α} {act : Act τ α} (hs : s.step act = some s') (h : Inv s) :
    Inv s' := by
  obtain ⟨done, mine, waiting, rest, pending, hsplit⟩ := h
  cases act with
  | enqueue t a x =>
      simp only [step] at hs
      split_ifs at hs with hguard
      cases hs
      exact ⟨_, _, _, _, _, hsplit.enqueue x hguard.2.1 hguard.2.2⟩
  | wake t ok =>
      simp only [step] at hs
      split_ifs at hs with hposter
      obtain ⟨s₁, hw, rfl⟩ := Option.map_eq_some_iff.mp hs
      obtain ⟨n, hn, rfl⟩ := wakeup_eq hw
      exact ⟨_, _, _, _, _, hsplit.wake hn t⟩
  | wakeup ok =>
      obtain ⟨n, hn, rfl⟩ := wakeup_eq hs
      exact ⟨_, _, _, _, _, hsplit.wakeup hn⟩
  | enter t =>
      simp only [step] at hs
      split_ifs at hs with hguard
      cases hs
      exact ⟨_, _, _, _, _, hsplit.enter hguard.1 hguard.2⟩
  | loop l =>
      simp only [step] at hs
      split_ifs at hs with hready
      exact loopStep_inv hs hready ⟨_, _, _, _, _, hsplit⟩

theorem run_inv {s s' : State τ α} {acts : List (Act τ α)} (hs : s.run acts = some s') (h : Inv s) :
    Inv s' := by
  induction acts generalizing s with
  | nil =>
      cases hs
      exact h
  | cons act acts ih =>
      simp only [run, List.foldlM_cons] at hs
      obtain ⟨s₁, hstep, hrun⟩ := Option.bind_eq_some_iff.mp hs
      exact ih hrun (step_inv hstep h)

-- Every task that has been enqueued has been run, is in the batch or waits in the queue, in the
-- order of the calls; and the loop is not left asleep on a task.
structure Fifo (s : State τ α) : Prop where
  ordered : s.ran.map Prod.fst <+: s.posted.map Posted.item
  later : ∀ (i : Nat) (p : Posted α) (r : α × Nat), s.posted[i]? = some p → s.ran[i]? = some r →
    p.byCallback = true → p.round < r.2
  kept : ∃ rest pending, Linked s.posts.heap s.phase.active rest ∧ s.posts.Holds pending ∧
    s.posted.map Posted.item = s.ran.map Prod.fst ++ rest.map Prod.snd ++ pending.map Prod.snd
  woken : s.phase = .select → s.posts.head ≠ none →
    0 < s.tokens ∨ ∃ t, s.loopThread ≠ some t ∧ s.poster t = .enqueued

structure Correct (s : State τ α) : Prop extends Fifo s where
  counted : ∃ pending, s.posts.Holds pending ∧ s.postPendingCount = pending.length

theorem forall_later {done : List (Posted α)} {ran : List (α × Nat)}
    (h : List.Forall₂ Later done ran) : done.map Posted.item = ran.map Prod.fst := by
  induction h with
  | nil => rfl
  | cons hp _ ih => rw [List.map_cons, List.map_cons, hp.1, ih]

omit [DecidableEq τ] in
theorem Split.fifo {s : State τ α} {done mine waiting : List (Posted α)}
    {rest pending : List (Nat × α)} (h : Split s done mine waiting rest pending) : Fifo s := by
  have hitems : s.posted.map Posted.item =
      s.ran.map Prod.fst ++ rest.map Prod.snd ++ pending.map Prod.snd := by
    simp only [h.posted, List.map_append, forall_later h.ran, h.batch, h.queue]
  refine ⟨?_, ?_, ⟨rest, pending, h.linked, h.holds, hitems⟩, ?_⟩
  · rw [hitems, List.append_assoc]
    exact List.prefix_append _ _
  · intro i p r hp hr hcb
    have hlen := h.ran.length_eq
    have hi : i < s.ran.length := (List.getElem?_eq_some_iff.mp hr).1
    rw [h.posted, List.append_assoc, List.getElem?_append_left (by omega)] at hp
    obtain ⟨hi', rfl⟩ := List.getElem?_eq_some_iff.mp hp
    obtain ⟨_, rfl⟩ := List.getElem?_eq_some_iff.mp hr
    exact (h.ran.get hi' hi).2 hcb
  · intro hphase hhead
    have hne : pending ≠ [] := fun hnil => hhead (h.holds.head_eq_none.mpr hnil)
    refine (h.woken (by rw [hphase]; rfl) hne).imp id ?_
    rintro ⟨t, ht⟩
    refine ⟨t, fun hloop => ?_, ht⟩
    have hidle := h.ready (by rw [hphase]; rfl) t hloop
    rw [ht] at hidle
    cases hidle

omit [DecidableEq τ] in
theorem Split.correct_iff {s : State τ α} {done mine waiting : List (Posted α)}
    {rest pending : List (Nat × α)} (h : Split s done mine waiting rest pending) :
    Correct s ↔ s.posts.count ≤ intMax := by
  have hcount := h.count
  rw [← h.holds.count] at hcount
  refine ⟨fun hc => ?_, fun hle => ⟨h.fifo, pending, h.holds, ?_⟩⟩
  · obtain ⟨l, hl, heq⟩ := hc.counted
    rw [← hl.count, hcount] at heq
    exact (toInt_eq_iff _).mp heq
  · rw [← h.holds.count, hcount, (toInt_eq_iff _).mpr hle]

-- Whatever the interleaving, no task is lost, run twice or overtaken, and no wakeup is lost;
-- `post_pending_count` is right for as long as an `int` can hold it.
theorem posts_fifo {s : State τ α} (acts : List (Act τ α)) (h : create.run acts = some s) :
    Fifo s ∧ (Correct s ↔ s.posts.count ≤ intMax) := by
  obtain ⟨done, mine, waiting, rest, pending, hsplit⟩ := run_inv h create_inv
  exact ⟨hsplit.fifo, hsplit.correct_iff⟩

-- Thread 1 posts task 10 while the loop is about to sleep; its callback posts task 20; then
-- thread 1 has not yet written its token for task 30.
def contended : List (Act Nat Nat) :=
  [.enter 0, .loop (.build true), .enqueue 1 0 10, .wake 1 true, .loop (.select (.ready true)),
    .loop (.drain 1), .loop (.drain 0), .loop .ioDone, .loop .swap, .loop .next, .enqueue 0 1 20,
    .wake 0 true, .loop .ret, .loop .next, .loop .timersDone, .enter 0, .loop (.build true),
    .loop (.select (.ready true)), .loop (.drain 1), .loop (.drain 0), .loop .ioDone, .loop .swap,
    .enqueue 1 0 30, .loop .next, .loop .ret, .loop .next, .loop .timersDone, .enter 0,
    .loop (.build true)]

theorem posts_fifo_contended : ∃ s, create.run contended = some s ∧ s.phase = .select ∧
    s.ran = [(10, 1), (20, 2)] ∧ s.tokens = 0 ∧ s.posts.head ≠ none ∧
      Fifo s ∧ (Correct s ↔ s.posts.count ≤ intMax) :=
  ⟨_, rfl, rfl, rfl, rfl, nofun, posts_fifo contended rfl⟩

-- A thread that posts while the loop does not run.
def burst : Nat → List (Act Nat Nat)
  | 0 => []
  | n + 1 => burst n ++ [.enqueue 0 n 7, .wake 0 true]

theorem burst_run (n : Nat) : ∃ s : State Nat Nat, create.run (burst n) = some s ∧
    s.posts.count = n ∧ s.poster 0 = .idle ∧ s.loopThread = none ∧
      ∀ a, n ≤ a → s.posts.heap a = none := by
  induction n with
  | zero => exact ⟨_, rfl, rfl, rfl, rfl, fun _ _ => rfl⟩
  | succ n ih =>
      obtain ⟨s, hrun, hcount, hposter, hloop, hheap⟩ := ih
      have hfree := hheap n (Nat.le_refl n)
      let s₁ := s.enqueue 0 n 7
      have henqueue : s.step (.enqueue 0 n 7) = some s₁ := by
        simp [step, hposter, hfree, hloop, s₁]
      let s₂ : State Nat Nat :=
        { s₁ with tokens := s₁.tokens + 1, poster := Function.update s₁.poster 0 .idle }
      have hwake : s₁.step (.wake 0 true) = some s₂ := by
        simp [step, wakeup, s₁, s₂, State.enqueue]
      refine ⟨s₂, ?_, ?_, Function.update_self (0 : Nat) Poster.idle s₁.poster, hloop, fun a ha => ?_⟩
      · simp only [run, burst, List.foldlM_append] at hrun ⊢
        simp only [hrun, List.foldlM_cons, List.foldlM_nil, Option.bind_eq_bind, Option.bind_some,
          henqueue, hwake]
        rfl
      · simp [s₂, s₁, State.enqueue, Chain.Queue.push_count, hcount]
      · exact Chain.Queue.push_free (hheap a (Nat.le_of_succ_le ha)) (by omega) 7

theorem overfull_queue_miscounted :
    ∃ s : State Nat Nat, create.run (burst 2147483648) = some s ∧ ¬ Correct s := by
  obtain ⟨s, hrun, hcount, -⟩ := burst_run 2147483648
  refine ⟨s, hrun, fun hc => ?_⟩
  obtain ⟨_, _, _, _, _, hsplit⟩ := run_inv hrun create_inv
  have hle := hsplit.correct_iff.mp hc
  rw [hcount] at hle
  exact absurd hle (by decide)

end State

end Sevent.Loop.Posts
