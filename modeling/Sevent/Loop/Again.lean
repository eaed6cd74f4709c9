import Sevent.Loop.Dispatch

-- A handle is known by its address only, and the memory of an unregistered node is free for the
-- next registration once a round has begun: what a second unregister of the same handle does.
namespace Sevent.Loop

inductive Kind where
  | io
  | timer
  deriving DecidableEq, Repr

def Context.unregister (c : Context) : Kind → Nat → Context
  | .io, h => c.ioUnregister h
  | .timer, h => c.timerUnregister h

-- The handles of a kind: the addresses of its registered nodes.
def Context.handles (c : Context) : Kind → List Nat
  | .io => c.ioList.map Io.addr
  | .timer => c.timerList.map Timer.addr

def Context.dead (c : Context) : Kind → List Nat
  | .io => c.deathIo.map Io.addr
  | .timer => c.deathTimer.map Timer.addr

structure Unaffected (c d : Context) : Prop where
  ios : d.ioList = c.ioList
  timers : d.timerList = c.timerList
  deathIos : d.deathIo = c.deathIo
  deathTimers : d.deathTimer = c.deathTimer
  ioCount : d.ioCount = c.ioCount
  timerCount : d.timerCount = c.timerCount

-- ---- the loop, one thing at a time ----

-- What is done to a context, at its finest: a call made by the user, in a callback or between
-- two rounds, and what the loop itself does around the callbacks.
inductive Move where
  | act (a : Act)
  | note (e : Event)
  | freeDeath
  | takePosts
  | retime (delta : Nat)
  deriving DecidableEq, Repr

def Move.run (m : Move) (c : Context) : Context :=
  match m with
  | .act a => a.run c
  | .note e => c.emit e
  | .freeDeath => c.runFreeDeath
  | .takePosts => { c with postPending := [], postPendingCount := 0 }
  | .retime delta => { c with timerList := (collectExpired delta c.timerList 0).1 }

def runMoves (moves : List Move) (c : Context) : Context := moves.foldl (fun c m => m.run c) c

theorem runMoves_append (l l' : List Move) (c : Context) :
    runMoves (l ++ l') c = runMoves l' (runMoves l c) := List.foldl_append

-- One context leads to another without a node being released in between.
def Leads (c d : Context) : Prop := ∃ moves, .freeDeath ∉ moves ∧ runMoves moves c = d

theorem Leads.refl (c : Context) : Leads c c := ⟨[], List.not_mem_nil, rfl⟩

theorem Leads.trans {c d e : Context} (h : Leads c d) (h' : Leads d e) : Leads c e := by
  obtain ⟨l, hl, rfl⟩ := h
  obtain ⟨l', hl', rfl⟩ := h'
  refine ⟨l ++ l', fun hmem => ?_, runMoves_append l l' c⟩
  exact (List.mem_append.mp hmem).elim hl hl'

theorem Leads.move {m : Move} (hm : m ≠ .freeDeath) (c : Context) : Leads c (m.run c) :=
  ⟨[m], fun hmem => hm (List.mem_singleton.mp hmem).symm, rfl⟩

theorem script_leads (s : Script) (c : Context) : Leads c (s.run c) := by
  unfold Script.run
  induction s generalizing c with
  | nil => exact Leads.refl c
  | cons a rest ih => exact (Leads.move (m := .act a) nofun c).trans (ih (a.run c))

theorem callback_leads (e : Event) (s : Script) (c : Context) : Leads c (s.run (c.emit e)) :=
  (Leads.move (m := .note e) nofun c).trans (script_leads s _)

theorem runIoCallbacks_leads (readable writable : List Nat) (snap : List Io)
    (scripts : List Script) (c : Context) :
    Leads c (c.runIoCallbacks readable writable snap scripts) := by
  induction snap generalizing scripts c with
  | nil => exact Leads.refl c
  | cons io rest ih =>
      unfold Context.runIoCallbacks
      split_ifs
      · exact ih scripts c
      · exact ih scripts c
      · exact (callback_leads (.ioFired io.uid) _ c).trans (ih _ _)
      · exact ih scripts c

theorem runPostBatch_leads (batch : List Nat) (scripts : List Script) (c : Context) :
    Leads c (c.runPostBatch batch scripts) := by
  induction batch generalizing scripts c with
  | nil => exact Leads.refl c
  | cons p rest ih => exact (callback_leads (.postRan p) _ c).trans (ih _ _)

theorem runPosts_leads (scripts : List Script) (c : Context) : Leads c (c.runPosts scripts) :=
  (Leads.move (m := .takePosts) nofun c).trans (runPostBatch_leads _ scripts _)

theorem fireBurst_leads (uid times : Nat) (scripts : List Script) (c : Context) :
    Leads c (c.fireBurst uid times scripts).1 := by
  induction times generalizing scripts c with
  | zero => exact Leads.refl c
  | succ times ih =>
      unfold Context.fireBurst
      split
      · exact Leads.refl c
      · exact (callback_leads (.timerFired uid) _ c).trans (ih _ _)

theorem fireExpired_leads (expired : List (Nat × Nat)) (scripts : List Script) (c : Context) :
    Leads c (c.fireExpired expired scripts) := by
  induction expired generalizing scripts c with
  | nil => exact Leads.refl c
  | cons x rest ih => exact (fireBurst_leads x.1 x.2 scripts c).trans (ih _ _)

theorem runTimers_leads (hasTimer : Bool) (delta : Nat) (scripts : List Script) (c : Context) :
    Leads c (c.runTimers hasTimer delta scripts) := by
  unfold Context.runTimers
  split
  · exact Leads.refl c
  · exact (Leads.move (m := .retime delta) nofun c).trans (fireExpired_leads _ scripts _)

theorem afterIo_leads (r : Round) (c : Context) : Leads c.runFreeDeath (r.afterIo c) := by
  have hselect := Leads.move (m := .note (.select r.delta)) nofun c.runFreeDeath
  unfold Round.afterIo
  dsimp only
  split
  · split
    · exact hselect.trans (runIoCallbacks_leads _ _ _ r.ioScripts _)
    · exact hselect
  · exact Leads.refl _

theorem runOnce_leads (r : Round) (c : Context) : Leads c.runFreeDeath (c.runOnce r) := by
  rcases runOnce_cases r c with heq | ⟨delta, heq⟩
  · exact heq ▸ afterIo_leads r c
  · rw [heq]
    exact ((afterIo_leads r c).trans (runPosts_leads r.postScripts _)).trans
      (runTimers_leads _ delta r.timerScripts _)

theorem midway_leads {r : Round} {c d : Context} {ios timers : List (Nat × Nat)}
    (hm : Midway r c ios timers d) : Leads c.runFreeDeath d := by
  cases hm with
  | io readable writable snap scripts hsnap =>
      exact (Leads.move (m := .note (.select r.delta)) nofun _).trans
        (runIoCallbacks_leads _ _ snap scripts _)
  | posts batch scripts hbatch =>
      exact ((afterIo_leads r c).trans (Leads.move (m := .takePosts) nofun _)).trans
        (runPostBatch_leads batch scripts _)
  | timers delta d hd done uid times k rest scripts hexpired hk =>
      have hposts : Leads c.runFreeDeath d := hd ▸ (afterIo_leads r c).trans (runPosts_leads _ _)
      exact (hposts.trans (Leads.move (m := .retime delta) nofun d)).trans
        (fireExpired_leads _ scripts _)

-- Every run is a run of moves, and so is every part of a round that ends between two callbacks.
theorem runSteps_moves (steps : List Step) (c : Context) :
    ∃ moves, runMoves moves c = runSteps steps c := by
  unfold runSteps
  induction steps generalizing c with
  | nil => exact ⟨[], rfl⟩
  | cons s rest ih =>
      obtain ⟨l, hl⟩ : ∃ moves, runMoves moves c = s.run c := by
        cases s with
        | round r =>
            obtain ⟨l, -, hl⟩ := runOnce_leads r c
            exact ⟨.freeDeath :: l, hl⟩
        | calls script =>
            obtain ⟨l, -, hl⟩ := script_leads script c
            exact ⟨l, hl⟩
      obtain ⟨l', hl'⟩ := ih (s.run c)
      refine ⟨l ++ l', ?_⟩
      rw [runMoves_append, hl, hl']
      rfl

theorem moment_moves {r : Round} {c d : Context} (hd : Moment r c d) :
    ∃ moves, runMoves moves c = d := by
  rcases hd with rfl | ⟨ios, timers, hm⟩
  · exact ⟨[], rfl⟩
  · obtain ⟨l, -, hl⟩ := midway_leads hm
    exact ⟨.freeDeath :: l, hl⟩

-- ---- the handles in use ----

-- A registration of this kind for which the allocator answers with the address `h`.
def Move.gives (k : Kind) (h : Nat) : Move → Prop
  | .act (.ioRegister _ _ _ pick) => k = .io ∧ pick = some h
  | .act (.timerRegister _ pick) => k = .timer ∧ pick = some h
  | _ => False

theorem alloc_unused {c : Context} {pick : Option Nat} {x : Nat} (h : c.alloc pick = some x)
    (k : Kind) : pick = some x ∧ x ∉ c.handles k ∧ x ∉ c.dead k := by
  unfold Context.alloc at h
  split at h
  · cases h
  · split_ifs at h with hused
    cases h
    simp only [not_or, List.map_append, List.mem_append] at hused
    cases k with
    | io => exact ⟨rfl, hused.1⟩
    | timer => exact ⟨rfl, hused.2⟩

theorem map_eraseP_key {α : Type*} (key : α → Nat) (h : Nat) (l : List α) :
    (l.eraseP (key · = h)).map key = (l.map key).erase h := by
  rw [List.erase_eq_eraseP, List.eraseP_map]
  congr 2
  funext x
  rw [Function.comp_apply, Bool.eq_iff_iff, beq_iff_eq, decide_eq_true_iff]
  exact eq_comm

structure Added (k : Kind) (x : Nat) (c d : Context) : Prop where
  fresh : x ∉ c.handles k ∧ x ∉ c.dead k
  handles : d.handles k = x :: c.handles k
  dead : d.dead k = c.dead k

structure Removed (k : Kind) (x : Nat) (c d : Context) : Prop where
  held : x ∈ c.handles k
  handles : d.handles k = (c.handles k).erase x
  dead : d.dead k = x :: c.dead k

structure Same (k : Kind) (c d : Context) : Prop where
  handles : d.handles k = c.handles k
  dead : d.dead k = c.dead k

theorem unregister_cases (c : Context) (k : Kind) (h : Nat) :
    (h ∉ c.handles k ∧ c.unregister k h = c) ∨ Removed k h c (c.unregister k h) := by
  cases k with
  | io =>
      simp only [Context.unregister, Context.ioUnregister]
      cases hfind : c.ioList.find? (·.addr = h) with
      | none =>
          refine .inl ⟨fun hmem => ?_, rfl⟩
          obtain ⟨io, hio, haddr⟩ := List.mem_map.mp hmem
          exact absurd haddr (by simpa using List.find?_eq_none.mp hfind io hio)
      | some io =>
          have haddr : io.addr = h := by simpa using List.find?_some hfind
          refine .inr ⟨?_, map_eraseP_key Io.addr h c.ioList, ?_⟩
          · exact haddr ▸ List.mem_map_of_mem (List.mem_of_find?_eq_some hfind)
          · simp [Context.dead, Context.emit, haddr]
  | timer =>
      simp only [Context.unregister, Context.timerUnregister]
      cases hfind : c.timerList.find? (·.addr = h) with
      | none =>
          refine .inl ⟨fun hmem => ?_, rfl⟩
          obtain ⟨t, ht, haddr⟩ := List.mem_map.mp hmem
          exact absurd haddr (by simpa using List.find?_eq_none.mp hfind t ht)
      | some t =>
          have haddr : t.addr = h := by simpa using List.find?_some hfind
          refine .inr ⟨?_, map_eraseP_key Timer.addr h c.timerList, ?_⟩
          · exact haddr ▸ List.mem_map_of_mem (List.mem_of_find?_eq_some hfind)
          · simp [Context.dead, Context.emit, haddr]

-- Handles of the other kind are not touched.
theorem unregister_other (c : Context) {k k' : Kind} (hne : k' ≠ k) (h : Nat) :
    Same k' c (c.unregister k h) := by
  cases k with
  | io =>
      cases k' with
      | io => exact absurd rfl hne
      | timer =>
          simp only [Context.unregister, Context.ioUnregister]
          split <;> exact ⟨rfl, rfl⟩
  | timer =>
      cases k' with
      | timer => exact absurd rfl hne
      | io =>
          simp only [Context.unregister, Context.timerUnregister]
          split <;> exact ⟨rfl, rfl⟩

theorem act_cases (a : Act) (c : Context) (k : Kind) : Same k c (a.run c) ∨
    (∃ x, Move.gives k x (.act a) ∧ Added k x c (a.run c)) ∨ ∃ x, Removed k x c (a.run c) := by
  have hunregister : ∀ k' h, Same k c (c.unregister k' h) ∨ ∃ x, Removed k x c (c.unregister k' h) := by
    intro k' h
    by_cases hk : k = k'
    · subst hk
      rcases unregister_cases c k h with ⟨-, heq⟩ | hremoved
      · exact .inl (by rw [heq]; exact ⟨rfl, rfl⟩)
      · exact .inr ⟨h, hremoved⟩
    · exact .inl (unregister_other c hk h)
  cases a with
  | ioRegister fd r w pick =>
      simp only [Act.run, Context.ioRegister]
      split_ifs
      · exact .inl ⟨rfl, rfl⟩
      · exact .inl ⟨rfl, rfl⟩
      · split <;> exact .inl ⟨rfl, rfl⟩
      · split
        · exact .inl ⟨rfl, rfl⟩
        · rename_i x halloc
          obtain ⟨hpick, hfresh⟩ := alloc_unused halloc k
          cases k with
          | io => exact .inr (.inl ⟨x, ⟨rfl, hpick⟩, ⟨hfresh, rfl, rfl⟩⟩)
          | timer => exact .inl ⟨rfl, rfl⟩
  | ioUnregister h => exact (hunregister .io h).imp_right .inr
  | timerRegister ms pick =>
      simp only [Act.run, Context.timerRegister]
      split_ifs
      · exact .inl ⟨rfl, rfl⟩
      · split
        · exact .inl ⟨rfl, rfl⟩
        · rename_i x halloc
          obtain ⟨hpick, hfresh⟩ := alloc_unused halloc k
          cases k with
          | io => exact .inl ⟨rfl, rfl⟩
          | timer => exact .inr (.inl ⟨x, ⟨rfl, hpick⟩, ⟨hfresh, rfl, rfl⟩⟩)
  | timerUnregister h => exact (hunregister .timer h).imp_right .inr
  | post ok =>
      simp only [Act.run, Context.post]
      split <;> exact .inl ⟨rfl, rfl⟩

theorem retime_handles (delta : Nat) (c : Context) :
    (collectExpired delta c.timerList 0).1.map Timer.addr = c.timerList.map Timer.addr := by
  have hrefs := congrArg (List.map fun x : (Nat × Nat) × Bool => x.1.1)
    (collectExpired_refs delta c.timerList 0)
  rwa [List.map_map, List.map_map] at hrefs

-- What a move does to the handles of a kind, and to the nodes waiting to be released.
theorem move_cases (m : Move) (c : Context) (k : Kind) : Same k c (m.run c) ∨
    (∃ x, m.gives k x ∧ Added k x c (m.run c)) ∨ (∃ x, Removed k x c (m.run c)) ∨
    (m = .freeDeath ∧ (m.run c).handles k = c.handles k) := by
  cases m with
  | act a =>
      rcases act_cases a c k with hsame | hadded | hremoved
      · exact .inl hsame
      · exact .inr (.inl hadded)
      · exact .inr (.inr (.inl hremoved))
  | note e => exact .inl (by cases k <;> exact ⟨rfl, rfl⟩)
  | freeDeath => exact .inr (.inr (.inr ⟨rfl, by cases k <;> rfl⟩))
  | takePosts => exact .inl (by cases k <;> exact ⟨rfl, rfl⟩)
  | retime delta =>
      cases k with
      | io => exact .inl ⟨rfl, rfl⟩
      | timer => exact .inl ⟨retime_handles delta c, rfl⟩

-- ---- one address, one live handle ----

theorem move_nodup {c : Context} {k : Kind} (h : (c.handles k).Nodup) (m : Move) :
    ((m.run c).handles k).Nodup := by
  rcases move_cases m c k with hsame | ⟨x, -, hadded⟩ | ⟨x, hremoved⟩ | ⟨-, hsame⟩
  · rwa [hsame.handles]
  · rw [hadded.handles]
    exact List.nodup_cons.mpr ⟨hadded.fresh.1, h⟩
  · rw [hremoved.handles]
    exact h.erase x
  · rwa [hsame]

theorem runMoves_nodup (moves : List Move) {c : Context} {k : Kind} (h : (c.handles k).Nodup) :
    ((runMoves moves c).handles k).Nodup := by
  unfold runMoves
  induction moves generalizing c with
  | nil => exact h
  | cons m rest ih => exact ih (move_nodup h m)

theorem create_nodup (k : Kind) : (create.handles k).Nodup := by
  cases k <;> exact List.nodup_nil

theorem unregister_gone {c : Context} {k : Kind} {h : Nat} (hn : (c.handles k).Nodup)
    (hheld : h ∈ c.handles k) :
    h ∉ (c.unregister k h).handles k ∧ h ∈ (c.unregister k h).dead k := by
  rcases unregister_cases c k h with ⟨hnot, -⟩ | hremoved
  · exact absurd hheld hnot
  · rw [hremoved.handles, hremoved.dead]
    exact ⟨fun hmem => absurd rfl (hn.mem_erase_iff.mp hmem).1, List.mem_cons_self⟩

-- ---- afterwards ----

theorem move_gone {c : Context} {k : Kind} {h : Nat} (hgone : h ∉ c.handles k) {m : Move}
    (hm : ¬ m.gives k h) : h ∉ (m.run c).handles k := by
  rcases move_cases m c k with hsame | ⟨x, hgives, hadded⟩ | ⟨x, hremoved⟩ | ⟨-, hsame⟩
  · rwa [hsame.handles]
  · rw [hadded.handles, List.mem_cons, not_or]
    exact ⟨fun heq => hm (heq ▸ hgives), hgone⟩
  · rw [hremoved.handles]
    exact fun hmem => hgone (List.mem_of_mem_erase hmem)
  · rwa [hsame]

theorem runMoves_gone (moves : List Move) {c : Context} {k : Kind} {h : Nat}
    (hgone : h ∉ c.handles k) (hmoves : ∀ m ∈ moves, ¬ m.gives k h) :
    h ∉ (runMoves moves c).handles k := by
  unfold runMoves
  induction moves generalizing c with
  | nil => exact hgone
  | cons m rest ih =>
      exact ih (move_gone hgone (hmoves m List.mem_cons_self))
        fun m' hm' => hmoves m' (List.mem_cons_of_mem m hm')

-- Before the next run_free_death the node is still allocated, so nobody else gets its address.
theorem move_waiting {c : Context} {k : Kind} {h : Nat}
    (hgone : h ∉ c.handles k ∧ h ∈ c.dead k) {m : Move} (hm : m ≠ .freeDeath) :
    h ∉ (m.run c).handles k ∧ h ∈ (m.run c).dead k := by
  rcases move_cases m c k with hsame | ⟨x, -, hadded⟩ | ⟨x, hremoved⟩ | ⟨hfree, -⟩
  · rwa [hsame.handles, hsame.dead]
  · rw [hadded.handles, hadded.dead, List.mem_cons, not_or]
    exact ⟨⟨fun heq => hadded.fresh.2 (heq ▸ hgone.2), hgone.1⟩, hgone.2⟩
  · rw [hremoved.handles, hremoved.dead]
    exact ⟨fun hmem => hgone.1 (List.mem_of_mem_erase hmem), List.mem_cons_of_mem x hgone.2⟩
  · exact absurd hfree hm

theorem runMoves_waiting (moves : List Move) {c : Context} {k : Kind} {h : Nat}
    (hgone : h ∉ c.handles k ∧ h ∈ c.dead k) (hmoves : .freeDeath ∉ moves) :
    h ∉ (runMoves moves c).handles k := by
  unfold runMoves
  induction moves generalizing c with
  | nil => exact hgone.1
  | cons m rest ih =>
      rw [List.mem_cons, not_or] at hmoves
      exact ih (move_waiting hgone (Ne.symm hmoves.1)) hmoves.2

theorem unaffected_iff (c : Context) (k : Kind) (h : Nat) :
    Unaffected c (c.unregister k h) ↔ h ∉ c.handles k := by
  constructor
  · intro hsame hmem
    rcases unregister_cases c k h with ⟨hnot, -⟩ | hremoved
    · exact hnot hmem
    · have hlen : ((c.unregister k h).handles k).length = (c.handles k).length := by
        cases k with
        | io => exact congrArg (fun l => (l.map Io.addr).length) hsame.ios
        | timer => exact congrArg (fun l => (l.map Timer.addr).length) hsame.timers
      rw [hremoved.handles, List.length_erase_of_mem hmem] at hlen
      have := List.length_pos_of_mem hmem
      omega
  · intro hnot
    rcases unregister_cases c k h with ⟨-, heq⟩ | hremoved
    · rw [heq]
      exact ⟨rfl, rfl, rfl, rfl, rfl, rfl⟩
    · exact absurd hremoved.held hnot

-- `h` is registered after `first` and then unregistered; `since` is what happens from then on,
-- up to the repeated call.
theorem unregister_again (first since : List Move) (k : Kind) (h : Nat)
    (hheld : h ∈ (runMoves first create).handles k) :
    let c := runMoves since ((runMoves first create).unregister k h)
    (Unaffected c (c.unregister k h) ↔ h ∉ c.handles k) ∧
      ((∀ m ∈ since, ¬ m.gives k h) → Unaffected c (c.unregister k h)) ∧
      (.freeDeath ∉ since → Unaffected c (c.unregister k h)) := by
  have hgone := unregister_gone (runMoves_nodup first (create_nodup k)) hheld
  refine ⟨unaffected_iff _ k h, fun hgives => ?_, fun hfree => ?_⟩
  · exact (unaffected_iff _ k h).mpr (runMoves_gone since hgone.1 hgives)
  · exact (unaffected_iff _ k h).mpr (runMoves_waiting since hgone hfree)

def idle : Round := ⟨0, .eintr, [], [], []⟩

theorem unregister_again_twice :
    Unaffected ((runMoves [.act (.timerRegister 10 (some 1))] create).unregister .timer 1)
      (((runMoves [.act (.timerRegister 10 (some 1))] create).unregister .timer 1).unregister
        .timer 1) :=
  (unregister_again [.act (.timerRegister 10 (some 1))] [] .timer 1 (by decide)).2.2 (by decide)

-- A round releases the node, the next timer gets its address, and the second unregister of the
-- old handle removes the new timer.
theorem second_unregister_removes_other :
    let first := runSteps [.calls [.timerRegister 10 (some 1)]] create
    let c := runSteps [.round idle, .calls [.timerRegister 20 (some 1)]] (first.unregister .timer 1)
    1 ∈ first.handles .timer ∧ c.timerList.map Timer.uid = [1] ∧ c.timerCount = 1 ∧
      (c.unregister .timer 1).timerList = [] ∧ (c.unregister .timer 1).timerCount = 0 ∧
      ¬ Unaffected c (c.unregister .timer 1) := by
  refine ⟨by decide, by decide, by decide, by decide, by decide, fun h => ?_⟩
  exact absurd h.timerCount (by decide)

end Sevent.Loop
