import Mathlib.Data.Finset.Card
import Mathlib.Data.Finset.Range
import Mathlib.Data.List.Infix
import Sevent.Trace
import Sevent.Loop.Context

-- Callbacks that change the lists being dispatched: the snapshot, the `deleted` flag and the
-- death lists.
namespace Sevent.Loop

open Sevent.Trace

-- A node as the log and a pointer know it.
def Io.ref (io : Io) : Nat × Nat := (io.addr, io.uid)

def Timer.ref (t : Timer) : Nat × Nat := (t.addr, t.uid)

def Event.isFree : Event → Bool
  | .ioFreed _ | .timerFreed _ => true
  | _ => false

def Event.firedIo : Event → Option Nat
  | .ioFired uid => some uid
  | _ => none

-- No callback of what has been unregistered.
def NotStale (past : List Event) : Event → Prop
  | .ioFired uid => .ioUnregistered uid ∉ past
  | .timerFired uid => .timerUnregistered uid ∉ past
  | _ => True

-- ---- a list of nodes and its death list ----

-- `gone` is the event that takes a node from the live ones to the dead ones.
structure Tracked (gone : Nat → Event) (live dead : List (Nat × Nat)) (next : Nat)
    (log : List Event) : Prop where
  addrs : ((live ++ dead).map Prod.fst).Nodup
  uids : ((live ++ dead).map Prod.snd).Nodup
  below : ∀ x ∈ live ++ dead, x.2 < next
  logged : ∀ u, gone u ∈ log → u < next ∧ ∀ x ∈ live, x.2 ≠ u
  dead_logged : ∀ x ∈ dead, gone x.2 ∈ log

namespace Tracked

variable {gone : Nat → Event} {live dead : List (Nat × Nat)} {next : Nat} {log : List Event}

theorem log_append (h : Tracked gone live dead next log) {l : List Event}
    (hl : ∀ u, gone u ∉ l) {next' : Nat} (hle : next ≤ next') :
    Tracked gone live dead next' (log ++ l) where
  addrs := h.addrs
  uids := h.uids
  below := fun x hx => Nat.lt_of_lt_of_le (h.below x hx) hle
  logged := fun u hu => by
    obtain ⟨hlt, hlive⟩ := h.logged u ((List.mem_append.mp hu).resolve_right (hl u))
    exact ⟨Nat.lt_of_lt_of_le hlt hle, hlive⟩
  dead_logged := fun x hx => List.mem_append_left _ (h.dead_logged x hx)

theorem add (h : Tracked gone live dead next log) {a : Nat}
    (ha : a ∉ (live ++ dead).map Prod.fst) :
    Tracked gone ((a, next) :: live) dead (next + 1) log where
  addrs := List.nodup_cons.mpr ⟨ha, h.addrs⟩
  uids := by
    refine List.nodup_cons.mpr ⟨fun hmem => ?_, h.uids⟩
    obtain ⟨x, hx, heq⟩ := List.mem_map.mp hmem
    exact absurd (h.below x hx) (by omega)
  below := fun x hx => by
    rcases List.mem_cons.mp hx with rfl | hx
    · exact Nat.lt_succ_self next
    · exact Nat.lt_succ_of_lt (h.below x hx)
  logged := fun u hu => by
    obtain ⟨hlt, hlive⟩ := h.logged u hu
    refine ⟨Nat.lt_succ_of_lt hlt, fun x hx => ?_⟩
    rcases List.mem_cons.mp hx with rfl | hx
    · exact Nat.ne_of_gt hlt
    · exact hlive x hx
  dead_logged := h.dead_logged

theorem remove {l₁ l₂ : List (Nat × Nat)} {x : Nat × Nat}
    (h : Tracked gone (l₁ ++ x :: l₂) dead next log) (hinj : Function.Injective gone) :
    Tracked gone (l₁ ++ l₂) (x :: dead) next (log ++ [gone x.2]) := by
  have hperm : ((l₁ ++ l₂) ++ x :: dead).Perm ((l₁ ++ x :: l₂) ++ dead) := by
    refine List.perm_middle.trans ?_
    rw [← List.cons_append]
    exact List.Perm.append_right dead List.perm_middle.symm
  have huids := h.uids
  rw [List.append_assoc, List.map_append, List.cons_append, List.map_cons] at huids
  exact
    { addrs := (hperm.map Prod.fst).nodup_iff.mpr h.addrs
      uids := (hperm.map Prod.snd).nodup_iff.mpr h.uids
      below := fun y hy => h.below y (hperm.subset hy)
      logged := fun u hu => by
        have hsub : ∀ y ∈ l₁ ++ l₂, y ∈ l₁ ++ x :: l₂ := by
          intro y hy
          simp only [List.mem_append, List.mem_cons] at hy ⊢
          exact hy.imp_right .inr
        rcases List.mem_append.mp hu with hu | hu
        · obtain ⟨hlt, hlive⟩ := h.logged u hu
          exact ⟨hlt, fun y hy => hlive y (hsub y hy)⟩
        · obtain rfl := hinj (List.mem_singleton.mp hu)
          refine ⟨h.below x (by simp), fun y hy heq => ?_⟩
          obtain ⟨-, hcons, hne⟩ := List.nodup_append.mp huids
          rcases List.mem_append.mp hy with hy | hy
          · exact hne _ (List.mem_map_of_mem hy) _ (List.mem_cons_self ..) heq
          · refine (List.nodup_cons.mp hcons).1 ?_
            rw [← heq]
            exact List.mem_map_of_mem (List.mem_append_left _ hy)
      dead_logged := fun y hy => by
        rcases List.mem_cons.mp hy with rfl | hy
        · exact List.mem_append_right _ (List.mem_singleton.mpr rfl)
        · exact List.mem_append_left _ (h.dead_logged y hy) }

-- The dead nodes are freed.
theorem release (h : Tracked gone live dead next log) : Tracked gone live [] next log where
  addrs := by
    rw [List.append_nil]
    exact (List.nodup_append.mp (List.map_append ▸ h.addrs)).1
  uids := by
    rw [List.append_nil]
    exact (List.nodup_append.mp (List.map_append ▸ h.uids)).1
  below := fun x hx => h.below x (List.mem_append_left _ (by simpa using hx))
  logged := h.logged
  dead_logged := nofun

end Tracked

-- ---- the invariant ----

structure Intact (c : Context) : Prop where
  io : Tracked .ioUnregistered (c.ioList.map Io.ref) (c.deathIo.map Io.ref) c.nextUid c.log
  timer : Tracked .timerUnregistered (c.timerList.map Timer.ref) (c.deathTimer.map Timer.ref)
    c.nextUid c.log
  ioLive : ∀ io ∈ c.ioList, io.deleted = false
  ioDead : ∀ io ∈ c.deathIo, io.deleted = true
  timerLive : ∀ t ∈ c.timerList, t.deleted = false
  timerDead : ∀ t ∈ c.deathTimer, t.deleted = true
  fds : (c.ioList.map Io.fd).Nodup
  fdBound : ∀ io ∈ c.ioList, io.fd < fdSetSize
  ioCount : c.ioCount = toInt c.ioList.length
  timerCount : c.timerCount = toInt c.timerList.length
  fires : AtEach NotStale c.log

theorem toInt_zero : toInt (0 : Nat) = 0 := toInt_of_small (Int.le_refl 0) (by decide)

theorem create_intact : Intact create where
  io := ⟨List.nodup_nil, List.nodup_nil, nofun, nofun, nofun⟩
  timer := ⟨List.nodup_nil, List.nodup_nil, nofun, nofun, nofun⟩
  ioLive := nofun
  ioDead := nofun
  timerLive := nofun
  timerDead := nofun
  fds := List.nodup_nil
  fdBound := nofun
  ioCount := toInt_zero.symm
  timerCount := toInt_zero.symm
  fires := atEach_nil _

-- The nodes and the counts.
structure SameNodes (c d : Context) : Prop where
  ioList : d.ioList = c.ioList
  deathIo : d.deathIo = c.deathIo
  timerList : d.timerList = c.timerList
  deathTimer : d.deathTimer = c.deathTimer
  ioCount : d.ioCount = c.ioCount
  timerCount : d.timerCount = c.timerCount

-- Events that unregister nothing; a callback among them is one of a registered node.
theorem Intact.logged {c d : Context} (h : Intact c) (hs : SameNodes c d) {e : Event}
    (hlog : d.log = c.log ++ [e]) (hle : c.nextUid ≤ d.nextUid)
    (hio : ∀ u, e ≠ .ioUnregistered u) (htimer : ∀ u, e ≠ .timerUnregistered u)
    (hstale : NotStale c.log e) : Intact d := by
  obtain ⟨h₁, h₂, h₃, h₄, h₅, h₆⟩ := hs
  have hio' : ∀ u, .ioUnregistered u ∉ [e] := fun u hu => hio u (List.mem_singleton.mp hu).symm
  have htimer' : ∀ u, .timerUnregistered u ∉ [e] :=
    fun u hu => htimer u (List.mem_singleton.mp hu).symm
  constructor
  case io =>
    rw [h₁, h₂, hlog]
    exact h.io.log_append hio' hle
  case timer =>
    rw [h₃, h₄, hlog]
    exact h.timer.log_append htimer' hle
  case ioLive => exact h₁ ▸ h.ioLive
  case ioDead => exact h₂ ▸ h.ioDead
  case timerLive => exact h₃ ▸ h.timerLive
  case timerDead => exact h₄ ▸ h.timerDead
  case fds => exact h₁ ▸ h.fds
  case fdBound => exact h₁ ▸ h.fdBound
  case ioCount => rw [h₅, h₁, h.ioCount]
  case timerCount => rw [h₆, h₃, h.timerCount]
  case fires => rw [hlog, atEach_concat]; exact ⟨h.fires, hstale⟩

theorem alloc_fresh {c : Context} {pick : Option Nat} {a : Nat} (h : c.alloc pick = some a) :
    a ∉ ((c.ioList.map Io.ref) ++ (c.deathIo.map Io.ref)).map Prod.fst ∧
      a ∉ ((c.timerList.map Timer.ref) ++ (c.deathTimer.map Timer.ref)).map Prod.fst := by
  unfold Context.alloc at h
  split at h
  · cases h
  · split_ifs at h with hused
    cases h
    rw [not_or] at hused
    have hio : Prod.fst ∘ Io.ref = Io.addr := rfl
    have htimer : Prod.fst ∘ Timer.ref = Timer.addr := rfl
    simpa only [← List.map_append, List.map_map, hio, htimer] using hused

theorem find_eraseP {α : Type*} {p : α → Bool} {l : List α} {x : α} (h : l.find? p = some x) :
    ∃ l₁ l₂, l = l₁ ++ x :: l₂ ∧ l.eraseP p = l₁ ++ l₂ := by
  obtain ⟨hx, l₁, l₂, rfl, hl₁⟩ := List.find?_eq_some_iff_append.mp h
  refine ⟨l₁, l₂, rfl, ?_⟩
  rw [List.eraseP_append_right _ (fun y hy => by simpa using hl₁ y hy), List.eraseP_cons_of_pos hx]

theorem Intact.ioRegister {c : Context} (h : Intact c) (fd : Int) (ioRead ioWrite : Bool)
    (pick : Option Nat) : Intact (c.ioRegister fd ioRead ioWrite pick) := by
  unfold Context.ioRegister
  split
  · exact h
  rename_i hfd
  split
  · exact h
  split
  · exact h
  · rename_i a ha
    split
    · exact h
    · rename_i hany
      have hfresh : ∀ io ∈ c.ioList, io.fd ≠ fd.toNat := by
        intro io hio heq
        refine hany (List.any_eq_true.mpr ⟨io, hio, ?_⟩)
        simp [heq, h.ioLive io hio]
      have hlogged : ∀ g : Nat → Event, (∀ u, g u ≠ .ioRegistered c.nextUid) →
          ∀ u, g u ∉ [Event.ioRegistered c.nextUid] :=
        fun g hg u hu => hg u (List.mem_singleton.mp hu)
      constructor
      case io =>
        exact (h.io.add (alloc_fresh ha).1).log_append (hlogged _ nofun) (Nat.le_refl _)
      case timer => exact h.timer.log_append (hlogged _ nofun) (Nat.le_succ _)
      case ioLive => exact List.forall_mem_cons.mpr ⟨rfl, h.ioLive⟩
      case ioDead => exact h.ioDead
      case timerLive => exact h.timerLive
      case timerDead => exact h.timerDead
      case fds =>
        refine List.nodup_cons.mpr ⟨fun hmem => ?_, h.fds⟩
        obtain ⟨io, hio, heq⟩ := List.mem_map.mp hmem
        exact hfresh io hio heq
      case fdBound =>
        refine List.forall_mem_cons.mpr ⟨?_, h.fdBound⟩
        simp only [fdSetSize] at hfd ⊢
        omega
      case ioCount =>
        simp only [Context.emit, h.ioCount]
        exact toInt_succ _
      case timerCount => exact h.timerCount
      case fires => exact (atEach_concat _ _ _).mpr ⟨h.fires, trivial⟩

theorem Intact.timerRegister {c : Context} (h : Intact c) (ms : UInt32) (pick : Option Nat) :
    Intact (c.timerRegister ms pick) := by
  unfold Context.timerRegister
  split_ifs
  · exact h
  split
  · exact h
  · rename_i a ha
    have hlogged : ∀ g : Nat → Event, (∀ u, g u ≠ .timerRegistered c.nextUid ms) →
        ∀ u, g u ∉ [Event.timerRegistered c.nextUid ms] :=
      fun g hg u hu => hg u (List.mem_singleton.mp hu)
    constructor
    case io => exact h.io.log_append (hlogged _ nofun) (Nat.le_succ _)
    case timer =>
      exact (h.timer.add (alloc_fresh ha).2).log_append (hlogged _ nofun) (Nat.le_refl _)
    case ioLive => exact h.ioLive
    case ioDead => exact h.ioDead
    case timerLive => exact List.forall_mem_cons.mpr ⟨rfl, h.timerLive⟩
    case timerDead => exact h.timerDead
    case fds => exact h.fds
    case fdBound => exact h.fdBound
    case ioCount => exact h.ioCount
    case timerCount =>
      simp only [Context.emit, h.timerCount]
      exact toInt_succ _
    case fires => exact (atEach_concat _ _ _).mpr ⟨h.fires, trivial⟩

theorem Intact.ioUnregister {c : Context} (h : Intact c) (addr : Nat) :
    Intact (c.ioUnregister addr) := by
  unfold Context.ioUnregister
  split
  · exact h
  · rename_i io hfind
    obtain ⟨l₁, l₂, hl, herase⟩ := find_eraseP hfind
    have hmem : ∀ x ∈ l₁ ++ l₂, x ∈ c.ioList := by
      intro x hx
      simp only [hl, List.mem_append, List.mem_cons] at hx ⊢
      exact hx.imp_right .inr
    have hio := h.io
    have hfds := h.fds
    have hcount := h.ioCount
    rw [hl] at hio hfds hcount
    rw [herase]
    constructor
    case io =>
      simp only [List.map_append, List.map_cons] at hio
      simp only [Context.emit, List.map_append, List.map_cons]
      exact hio.remove (fun _ _ => Event.ioUnregistered.inj)
    case timer =>
      exact h.timer.log_append (fun u => by simp) (Nat.le_refl _)
    case ioLive => exact fun x hx => h.ioLive x (hmem x hx)
    case ioDead => exact List.forall_mem_cons.mpr ⟨rfl, h.ioDead⟩
    case timerLive => exact h.timerLive
    case timerDead => exact h.timerDead
    case fds =>
      simp only [List.map_append, List.map_cons, Context.emit] at hfds ⊢
      exact (List.nodup_middle.mp hfds).of_cons
    case fdBound => exact fun x hx => h.fdBound x (hmem x hx)
    case ioCount =>
      simp only [List.length_append, List.length_cons] at hcount
      simp only [Context.emit, hcount, List.length_append]
      exact toInt_pred _
    case timerCount => exact h.timerCount
    case fires => exact (atEach_concat _ _ _).mpr ⟨h.fires, trivial⟩

theorem Intact.timerUnregister {c : Context} (h : Intact c) (addr : Nat) :
    Intact (c.timerUnregister addr) := by
  unfold Context.timerUnregister
  split
  · exact h
  · rename_i t hfind
    obtain ⟨l₁, l₂, hl, herase⟩ := find_eraseP hfind
    have hmem : ∀ x ∈ l₁ ++ l₂, x ∈ c.timerList := by
      intro x hx
      simp only [hl, List.mem_append, List.mem_cons] at hx ⊢
      exact hx.imp_right .inr
    have htimer := h.timer
    have hcount := h.timerCount
    rw [hl] at htimer hcount
    rw [herase]
    constructor
    case io => exact h.io.log_append (fun u => by simp) (Nat.le_refl _)
    case timer =>
      simp only [List.map_append, List.map_cons] at htimer
      simp only [Context.emit, List.map_append, List.map_cons]
      exact htimer.remove (fun _ _ => Event.timerUnregistered.inj)
    case ioLive => exact h.ioLive
    case ioDead => exact h.ioDead
    case timerLive => exact fun x hx => h.timerLive x (hmem x hx)
    case timerDead => exact List.forall_mem_cons.mpr ⟨rfl, h.timerDead⟩
    case fds => exact h.fds
    case fdBound => exact h.fdBound
    case ioCount => exact h.ioCount
    case timerCount =>
      simp only [List.length_append, List.length_cons] at hcount
      simp only [Context.emit, hcount, List.length_append]
      exact toInt_pred _
    case fires => exact (atEach_concat _ _ _).mpr ⟨h.fires, trivial⟩

theorem Intact.post {c : Context} (h : Intact c) (ok : Bool) : Intact (c.post ok) := by
  unfold Context.post
  split_ifs
  · exact h
  · exact h.logged ⟨rfl, rfl, rfl, rfl, rfl, rfl⟩ rfl (Nat.le_succ _) nofun nofun trivial

theorem Intact.act {c : Context} (h : Intact c) (a : Act) : Intact (a.run c) := by
  cases a with
  | ioRegister fd r w pick => exact h.ioRegister fd r w pick
  | ioUnregister addr => exact h.ioUnregister addr
  | timerRegister ms pick => exact h.timerRegister ms pick
  | timerUnregister addr => exact h.timerUnregister addr
  | post ok => exact h.post ok

theorem Intact.script (s : Script) {c : Context} (h : Intact c) : Intact (s.run c) := by
  unfold Script.run
  induction s generalizing c with
  | nil => exact h
  | cons a rest ih => exact ih (h.act a)

-- ---- what a stretch of a round leaves alone ----

namespace Context

-- The nodes that are allocated.
def ioRefs (c : Context) : List (Nat × Nat) := c.ioList.map Io.ref ++ c.deathIo.map Io.ref

def timerRefs (c : Context) : List (Nat × Nat) :=
  c.timerList.map Timer.ref ++ c.deathTimer.map Timer.ref

end Context

-- Nothing is freed; `fired` are the IO callbacks.
structure Carries (fired : List Nat) (c c' : Context) : Prop where
  log : ∃ l, c'.log = c.log ++ l ∧ (∀ e ∈ l, e.isFree = false) ∧ l.filterMap Event.firedIo = fired
  ios : c.ioRefs ⊆ c'.ioRefs
  timers : c.timerRefs ⊆ c'.timerRefs

theorem Carries.refl (c : Context) : Carries [] c c :=
  ⟨⟨[], by simp, nofun, rfl⟩, List.Subset.refl _, List.Subset.refl _⟩

theorem Carries.trans {f f' : List Nat} {c d e : Context} (h : Carries f c d)
    (h' : Carries f' d e) : Carries (f ++ f') c e := by
  obtain ⟨l, hl, hfree, hf⟩ := h.log
  obtain ⟨l', hl', hfree', hf'⟩ := h'.log
  refine ⟨⟨l ++ l', by rw [hl', hl, List.append_assoc], ?_, ?_⟩,
    List.Subset.trans h.ios h'.ios, List.Subset.trans h.timers h'.timers⟩
  · intro e he
    exact (List.mem_append.mp he).elim (hfree e) (hfree' e)
  · rw [List.filterMap_append, hf, hf']

theorem Carries.event {c d : Context} {e : Event} {fired : List Nat} (hlog : d.log = c.log ++ [e])
    (hfree : e.isFree = false) (hfired : e.firedIo.toList = fired) (hios : c.ioRefs ⊆ d.ioRefs)
    (htimers : c.timerRefs ⊆ d.timerRefs) : Carries fired c d := by
  refine ⟨⟨[e], hlog, fun e' he => ?_, ?_⟩, hios, htimers⟩
  · rw [List.mem_singleton.mp he, hfree]
  · rw [← hfired]
    cases h : e.firedIo <;> simp [h]

theorem subset_moved {α : Type*} (l₁ l₂ dead : List α) (x : α) :
    l₁ ++ x :: l₂ ++ dead ⊆ l₁ ++ l₂ ++ x :: dead := by
  intro y hy
  simp only [List.mem_append, List.mem_cons] at hy ⊢
  tauto

theorem act_carries (a : Act) (c : Context) : Carries [] c (a.run c) := by
  cases a with
  | ioRegister fd r w pick =>
      simp only [Act.run, Context.ioRegister]
      repeat' split
      all_goals first
        | exact .refl c
        | exact .event rfl rfl rfl (List.subset_cons_self _ _) (List.Subset.refl _)
  | ioUnregister addr =>
      simp only [Act.run, Context.ioUnregister]
      split
      · exact .refl c
      · rename_i io hfind
        obtain ⟨l₁, l₂, hl, herase⟩ := find_eraseP hfind
        refine .event rfl rfl rfl ?_ (List.Subset.refl _)
        simp only [Context.ioRefs, Context.emit, herase]
        simp only [hl, List.map_append, List.map_cons]
        exact subset_moved _ _ _ _
  | timerRegister ms pick =>
      simp only [Act.run, Context.timerRegister]
      repeat' split
      all_goals first
        | exact .refl c
        | exact .event rfl rfl rfl (List.Subset.refl _) (List.subset_cons_self _ _)
  | timerUnregister addr =>
      simp only [Act.run, Context.timerUnregister]
      split
      · exact .refl c
      · rename_i t hfind
        obtain ⟨l₁, l₂, hl, herase⟩ := find_eraseP hfind
        refine .event rfl rfl rfl (List.Subset.refl _) ?_
        simp only [Context.timerRefs, Context.emit, herase]
        simp only [hl, List.map_append, List.map_cons]
        exact subset_moved _ _ _ _
  | post ok =>
      simp only [Act.run, Context.post]
      split
      · exact .refl c
      · exact .event rfl rfl rfl (List.Subset.refl _) (List.Subset.refl _)

theorem script_carries (s : Script) (c : Context) : Carries [] c (s.run c) := by
  unfold Script.run
  induction s generalizing c with
  | nil => exact .refl c
  | cons a rest ih => exact (act_carries a c).trans (ih (a.run c))

-- ---- the `deleted` flag ----

theorem Intact.ioDeleted {c : Context} (h : Intact c) {uid : Nat} (hd : c.ioDeleted uid = false) :
    .ioUnregistered uid ∉ c.log := by
  intro hmem
  simp only [Context.ioDeleted, Bool.not_eq_false', List.any_eq_true] at hd
  obtain ⟨io, hio, heq⟩ := hd
  simp only [Bool.and_eq_true, decide_eq_true_eq] at heq
  exact (h.io.logged uid hmem).2 io.ref (List.mem_map_of_mem hio) heq.1

theorem Intact.timerDeleted {c : Context} (h : Intact c) {uid : Nat}
    (hd : c.timerDeleted uid = false) : .timerUnregistered uid ∉ c.log := by
  intro hmem
  simp only [Context.timerDeleted, Bool.not_eq_false', List.any_eq_true] at hd
  obtain ⟨t, ht, heq⟩ := hd
  simp only [Bool.and_eq_true, decide_eq_true_eq] at heq
  exact (h.timer.logged uid hmem).2 t.ref (List.mem_map_of_mem ht) heq.1

-- ---- the phases of a round ----

-- A callback and what its script does.
theorem callback_safe {c : Context} (h : Intact c) (e : Event) (s : Script)
    (hio : ∀ u, e ≠ .ioUnregistered u) (htimer : ∀ u, e ≠ .timerUnregistered u)
    (hfree : e.isFree = false) (hstale : NotStale c.log e) :
    Intact (s.run (c.emit e)) ∧ Carries e.firedIo.toList c (s.run (c.emit e)) := by
  have hemit : Intact (c.emit e) :=
    h.logged ⟨rfl, rfl, rfl, rfl, rfl, rfl⟩ rfl (Nat.le_refl _) hio htimer hstale
  have hcarries : Carries e.firedIo.toList c (c.emit e) :=
    .event rfl hfree rfl (List.Subset.refl _) (List.Subset.refl _)
  refine ⟨hemit.script s, ?_⟩
  have htrans := hcarries.trans (script_carries s (c.emit e))
  rwa [List.append_nil] at htrans

theorem runIoCallbacks_safe (readable writable : List Nat) (snap : List Io)
    (scripts : List Script) {c : Context} (h : Intact c) :
    Intact (c.runIoCallbacks readable writable snap scripts) ∧
      ∃ fired, fired.Sublist (snap.map Io.uid) ∧
        Carries fired c (c.runIoCallbacks readable writable snap scripts) := by
  induction snap generalizing scripts c with
  | nil => exact ⟨h, [], List.Sublist.refl _, .refl c⟩
  | cons io snap ih =>
      have hskip : ∀ scripts, Intact (c.runIoCallbacks readable writable snap scripts) ∧
          ∃ fired, fired.Sublist ((io :: snap).map Io.uid) ∧
            Carries fired c (c.runIoCallbacks readable writable snap scripts) := by
        intro scripts
        obtain ⟨hi, fired, hsub, hc⟩ := ih scripts h
        exact ⟨hi, fired, hsub.cons _, hc⟩
      unfold Context.runIoCallbacks
      split
      · exact hskip scripts
      rename_i hdel
      split
      · exact hskip scripts
      split
      · obtain ⟨hi, hc⟩ := callback_safe h (.ioFired io.uid) (Script.next scripts).1 nofun nofun rfl
          (h.ioDeleted (Bool.eq_false_iff.mpr hdel))
        obtain ⟨hi', fired, hsub, hc'⟩ := ih (Script.next scripts).2 hi
        exact ⟨hi', io.uid :: fired, hsub.cons_cons _, hc.trans hc'⟩
      · exact hskip scripts

theorem runPostBatch_safe (batch : List Nat) (scripts : List Script) {c : Context} (h : Intact c) :
    Intact (c.runPostBatch batch scripts) ∧ Carries [] c (c.runPostBatch batch scripts) := by
  induction batch generalizing scripts c with
  | nil => exact ⟨h, .refl c⟩
  | cons p batch ih =>
      obtain ⟨hi, hc⟩ := callback_safe h (.postRan p) (Script.next scripts).1 nofun nofun rfl trivial
      obtain ⟨hi', hc'⟩ := ih (Script.next scripts).2 hi
      exact ⟨hi', hc.trans hc'⟩

theorem fireBurst_safe (uid times : Nat) (scripts : List Script) {c : Context} (h : Intact c) :
    Intact (c.fireBurst uid times scripts).1 ∧ Carries [] c (c.fireBurst uid times scripts).1 := by
  induction times generalizing scripts c with
  | zero => exact ⟨h, .refl c⟩
  | succ times ih =>
      unfold Context.fireBurst
      split
      · exact ⟨h, .refl c⟩
      · rename_i hdel
        obtain ⟨hi, hc⟩ := callback_safe h (.timerFired uid) (Script.next scripts).1 nofun nofun rfl
          (h.timerDeleted (Bool.eq_false_iff.mpr hdel))
        obtain ⟨hi', hc'⟩ := ih (Script.next scripts).2 hi
        exact ⟨hi', hc.trans hc'⟩

theorem fireExpired_safe (expired : List (Nat × Nat)) (scripts : List Script) {c : Context}
    (h : Intact c) :
    Intact (c.fireExpired expired scripts) ∧ Carries [] c (c.fireExpired expired scripts) := by
  induction expired generalizing scripts c with
  | nil => exact ⟨h, .refl c⟩
  | cons x rest ih =>
      obtain ⟨hi, hc⟩ := fireBurst_safe x.1 x.2 scripts h
      obtain ⟨hi', hc'⟩ := ih (c.fireBurst x.1 x.2 scripts).2 hi
      exact ⟨hi', hc.trans hc'⟩

theorem runPosts_safe (scripts : List Script) {c : Context} (h : Intact c) :
    Intact (c.runPosts scripts) ∧ Carries [] c (c.runPosts scripts) := by
  have hswap : Intact { c with postPending := [], postPendingCount := 0 } :=
    ⟨h.io, h.timer, h.ioLive, h.ioDead, h.timerLive, h.timerDead, h.fds, h.fdBound, h.ioCount,
      h.timerCount, h.fires⟩
  obtain ⟨hi, hc⟩ := runPostBatch_safe c.postPending scripts hswap
  exact ⟨hi, hc.log, hc.ios, hc.timers⟩

-- Phase A changes what remains of a timer, nothing else.
theorem collectExpired_refs (delta : Nat) (timers : List Timer) (n : Nat) :
    (collectExpired delta timers n).1.map (fun t => (t.ref, t.deleted)) =
      timers.map (fun t => (t.ref, t.deleted)) := by
  induction timers generalizing n with
  | nil => rfl
  | cons t rest ih =>
      unfold collectExpired
      split
      · exact congrArg (List.cons (t.ref, t.deleted)) (ih n)
      dsimp only
      split
      · exact congrArg (List.cons (t.ref, t.deleted)) (ih (n + 1))
      split
      · exact congrArg (List.cons (t.ref, t.deleted)) (ih n)
      · exact congrArg (List.cons (t.ref, t.deleted)) (ih n)

theorem Intact.retimed {c : Context} (h : Intact c) {timers : List Timer}
    (heq : timers.map (fun t => (t.ref, t.deleted)) =
      c.timerList.map (fun t => (t.ref, t.deleted))) :
    Intact { c with timerList := timers } ∧ Carries [] c { c with timerList := timers } := by
  have href : timers.map Timer.ref = c.timerList.map Timer.ref := by
    have hfst := congrArg (List.map Prod.fst) heq
    rwa [List.map_map, List.map_map] at hfst
  have hlen : timers.length = c.timerList.length := by simpa using congrArg List.length heq
  have hlive : ∀ t ∈ timers, t.deleted = false := by
    intro t ht
    have hmem : (t.ref, t.deleted) ∈ c.timerList.map (fun t => (t.ref, t.deleted)) :=
      heq ▸ List.mem_map_of_mem (f := fun t : Timer => (t.ref, t.deleted)) ht
    obtain ⟨t', ht', hpair⟩ := List.mem_map.mp hmem
    rw [← (Prod.mk.inj hpair).2]
    exact h.timerLive t' ht'
  refine ⟨{ h with timer := ?_, timerLive := hlive, timerCount := ?_ },
    (Carries.refl c).log, List.Subset.refl _, ?_⟩
  · simpa only [href] using h.timer
  · simpa only [hlen] using h.timerCount
  · simp only [Context.timerRefs, href]
    exact List.Subset.refl _

theorem runTimers_safe (hasTimer : Bool) (delta : Nat) (scripts : List Script) {c : Context}
    (h : Intact c) : Intact (c.runTimers hasTimer delta scripts) ∧
      Carries [] c (c.runTimers hasTimer delta scripts) := by
  unfold Context.runTimers
  split
  · exact ⟨h, .refl c⟩
  · obtain ⟨hi, hc⟩ := h.retimed (collectExpired_refs delta c.timerList 0)
    obtain ⟨hi', hc'⟩ := fireExpired_safe (collectExpired delta c.timerList 0).2 scripts hi
    exact ⟨hi', hc.trans hc'⟩

theorem Intact.runFreeDeath {c : Context} (h : Intact c) : Intact c.runFreeDeath := by
  have hnot : ∀ g : Nat → Event, (∀ u, (g u).isFree = false) →
      ∀ u, g u ∉ c.deathIo.map (fun io => Event.ioFreed io.uid) ++
        c.deathTimer.map (fun t => Event.timerFreed t.uid) := by
    intro g hg u hu
    have hfree := hg u
    rcases List.mem_append.mp hu with hu | hu <;> obtain ⟨x, -, hx⟩ := List.mem_map.mp hu <;>
      · rw [← hx] at hfree
        cases hfree
  constructor
  case io =>
    simp only [Context.runFreeDeath, List.append_assoc]
    exact h.io.release.log_append (hnot _ fun _ => rfl) (Nat.le_refl _)
  case timer =>
    simp only [Context.runFreeDeath, List.append_assoc]
    exact h.timer.release.log_append (hnot _ fun _ => rfl) (Nat.le_refl _)
  case ioLive => exact h.ioLive
  case ioDead => exact nofun
  case timerLive => exact h.timerLive
  case timerDead => exact nofun
  case fds => exact h.fds
  case fdBound => exact h.fdBound
  case ioCount => exact h.ioCount
  case timerCount => exact h.timerCount
  case fires =>
    simp only [Context.runFreeDeath, List.append_assoc]
    refine h.fires.append _ fun e he past => ?_
    rcases List.mem_append.mp he with he | he <;> obtain ⟨x, -, rfl⟩ := List.mem_map.mp he <;>
      trivial

-- ---- a round, phase by phase ----

-- After the IO callbacks, or without them.
def Round.afterIo (r : Round) (c : Context) : Context :=
  let c := c.runFreeDeath
  let fds := c.runBuildFdset
  if fds.hasIo || fds.hasTimer then
    let c := c.emit (.select r.delta)
    match r.result with
    | .ready readable writable => c.runIoCallbacks readable writable fds.iosnap r.ioScripts
    | _ => c
  else c

theorem afterIo_safe (r : Round) {c : Context} (h : Intact c) :
    Intact (r.afterIo c) ∧ ∃ fired, fired.Sublist (c.runBuildFdset.iosnap.map Io.uid) ∧
      Carries fired c.runFreeDeath (r.afterIo c) := by
  have hfree := h.runFreeDeath
  have hselect := callback_safe hfree (.select r.delta) [] nofun nofun rfl trivial
  unfold Round.afterIo
  dsimp only
  split
  · split
    · obtain ⟨hi, fired, hsub, hc⟩ := runIoCallbacks_safe _ _ c.runBuildFdset.iosnap r.ioScripts
        hselect.1
      exact ⟨hi, fired, hsub, hselect.2.trans hc⟩
    · exact ⟨hselect.1, [], List.nil_sublist _, hselect.2⟩
  · exact ⟨hfree, [], List.nil_sublist _, .refl _⟩

-- What a round does after the IO callbacks, unless select has failed.
theorem runOnce_cases (r : Round) (c : Context) : c.runOnce r = r.afterIo c ∨
    ∃ delta, c.runOnce r = ((r.afterIo c).runPosts r.postScripts).runTimers
      c.runBuildFdset.hasTimer delta r.timerScripts := by
  unfold Context.runOnce Round.afterIo
  dsimp only
  split
  · cases r.result with
    | failed => exact .inl rfl
    | ready readable writable => exact .inr ⟨_, rfl⟩
    | eintr => exact .inr ⟨_, rfl⟩
    | ebadf => exact .inr ⟨_, rfl⟩
  · exact .inr ⟨_, rfl⟩

theorem runOnce_safe (r : Round) {c : Context} (h : Intact c) :
    Intact (c.runOnce r) ∧ ∃ fired, fired.Sublist (c.runBuildFdset.iosnap.map Io.uid) ∧
      Carries fired c.runFreeDeath (c.runOnce r) := by
  obtain ⟨hi, fired, hsub, hc⟩ := afterIo_safe r h
  rcases runOnce_cases r c with heq | ⟨delta, heq⟩
  · rw [heq]
    exact ⟨hi, fired, hsub, hc⟩
  · obtain ⟨hi₁, hc₁⟩ := runPosts_safe r.postScripts hi
    obtain ⟨hi₂, hc₂⟩ := runTimers_safe c.runBuildFdset.hasTimer delta r.timerScripts hi₁
    rw [heq]
    have hall := (hc.trans hc₁).trans hc₂
    rw [List.append_nil, List.append_nil] at hall
    exact ⟨hi₂, fired, hsub, hall⟩

theorem runSteps_intact (steps : List Step) {c : Context} (h : Intact c) :
    Intact (runSteps steps c) := by
  unfold runSteps
  induction steps generalizing c with
  | nil => exact h
  | cons s rest ih =>
      refine ih ?_
      cases s with
      | round r => exact (runOnce_safe r h).1
      | calls script => exact h.script script

-- ---- every moment of a round ----

-- The states between two callbacks, and the nodes that the loop still holds a pointer to: the
-- snapshot in the first phase, the expired timers in the last.
inductive Midway (r : Round) (c : Context) : List (Nat × Nat) → List (Nat × Nat) → Context → Prop where
  | io (readable writable : List Nat) (snap : List Io) (scripts : List Script)
      (hsnap : snap <+: c.runBuildFdset.iosnap) :
      Midway r c (c.runBuildFdset.iosnap.map Io.ref) []
        ((c.runFreeDeath.emit (.select r.delta)).runIoCallbacks readable writable snap scripts)
  | posts (batch : List Nat) (scripts : List Script) (hbatch : batch <+: (r.afterIo c).postPending) :
      Midway r c [] []
        ({ r.afterIo c with postPending := [], postPendingCount := 0 }.runPostBatch batch scripts)
  | timers (delta : Nat) (d : Context) (hd : d = (r.afterIo c).runPosts r.postScripts)
      (done : List (Nat × Nat)) (uid times k : Nat) (rest : List (Nat × Nat)) (scripts : List Script)
      (hexpired : (collectExpired delta d.timerList 0).2 = done ++ (uid, times) :: rest)
      (hk : k ≤ times) :
      Midway r c [] (d.timerList.map Timer.ref)
        ({ d with timerList := (collectExpired delta d.timerList 0).1 }.fireExpired
          (done ++ [(uid, k)]) scripts)

theorem midway_safe {r : Round} {c d : Context} {ios timers : List (Nat × Nat)} (h : Intact c)
    (hm : Midway r c ios timers d) : Intact d ∧ ios ⊆ d.ioRefs ∧ timers ⊆ d.timerRefs := by
  cases hm with
  | io readable writable snap scripts hsnap =>
      have hselect := callback_safe h.runFreeDeath (.select r.delta) [] nofun nofun rfl trivial
      obtain ⟨hi, fired, -, hc⟩ := runIoCallbacks_safe readable writable snap scripts hselect.1
      refine ⟨hi, List.Subset.trans ?_ hc.ios, List.nil_subset _⟩
      intro x hx
      refine List.mem_append_left _ (List.map_subset _ ?_ hx)
      exact List.take_subset _ _
  | posts batch scripts hbatch =>
      have ha := (afterIo_safe r h).1
      have hswap : Intact { r.afterIo c with postPending := [], postPendingCount := 0 } :=
        ⟨ha.io, ha.timer, ha.ioLive, ha.ioDead, ha.timerLive, ha.timerDead, ha.fds, ha.fdBound,
          ha.ioCount, ha.timerCount, ha.fires⟩
      exact ⟨(runPostBatch_safe batch scripts hswap).1, List.nil_subset _, List.nil_subset _⟩
  | timers delta d hd done uid times k rest scripts hexpired hk =>
      have hp := (runPosts_safe r.postScripts (afterIo_safe r h).1).1
      rw [← hd] at hp
      obtain ⟨hi, hc⟩ := hp.retimed (collectExpired_refs delta d.timerList 0)
      obtain ⟨hi', hc'⟩ := fireExpired_safe (done ++ [(uid, k)]) scripts hi
      refine ⟨hi', List.nil_subset _, List.Subset.trans ?_ (hc.trans hc').timers⟩
      exact List.subset_append_left _ _

-- What a pointer to a node of the round reads is the `deleted` flag of that registration.
theorem Intact.flag {c : Context} (h : Intact c) :
    (∀ io ∈ c.ioList ++ c.deathIo, io.deleted = c.ioDeleted io.uid) ∧
      ∀ t ∈ c.timerList ++ c.deathTimer, t.deleted = c.timerDeleted t.uid := by
  constructor
  · intro io hio
    rcases List.mem_append.mp hio with hlive | hdead
    · have hany : c.ioList.any (fun i => i.uid = io.uid && !i.deleted) = true :=
        List.any_eq_true.mpr ⟨io, hlive, by simp [h.ioLive io hlive]⟩
      simp only [Context.ioDeleted, hany, Bool.not_true, h.ioLive io hlive]
    · rw [h.ioDead io hdead]
      by_contra hne
      have hlog := h.io.dead_logged io.ref (List.mem_map_of_mem hdead)
      exact h.ioDeleted (Bool.eq_false_iff.mpr (Ne.symm hne)) hlog
  · intro t ht
    rcases List.mem_append.mp ht with hlive | hdead
    · have hany : c.timerList.any (fun i => i.uid = t.uid && !i.deleted) = true :=
        List.any_eq_true.mpr ⟨t, hlive, by simp [h.timerLive t hlive]⟩
      simp only [Context.timerDeleted, hany, Bool.not_true, h.timerLive t hlive]
    · rw [h.timerDead t hdead]
      by_contra hne
      have hlog := h.timer.dead_logged t.ref (List.mem_map_of_mem hdead)
      exact h.timerDeleted (Bool.eq_false_iff.mpr (Ne.symm hne)) hlog

theorem nodup_length_le {l : List Nat} {n : Nat} (hn : l.Nodup) (hb : ∀ x ∈ l, x < n) :
    l.length ≤ n := by
  rw [← List.toFinset_card_of_nodup hn, ← Finset.card_range n]
  exact Finset.card_le_card fun x hx => Finset.mem_range.mpr (hb x (List.mem_toFinset.mp hx))

theorem Intact.ioLength {c : Context} (h : Intact c) : c.ioCount = c.ioList.length := by
  have hbound : ∀ x ∈ c.ioList.map Io.fd, x < fdSetSize := by
    intro x hx
    obtain ⟨io, hio, rfl⟩ := List.mem_map.mp hx
    exact h.fdBound io hio
  have hle := nodup_length_le h.fds hbound
  rw [List.length_map] at hle
  rw [h.ioCount, (toInt_eq_iff _).mpr (Nat.le_trans hle (by decide))]

-- The state before the round and those between its callbacks.
def Moment (r : Round) (c d : Context) : Prop := d = c ∨ ∃ ios timers, Midway r c ios timers d

structure RoundSafe (r : Round) (c : Context) : Prop where
  -- the death lists of earlier rounds are freed, nothing else; a handle is called at most once,
  -- and only from the snapshot
  log : ∃ l, (c.runOnce r).log = c.log ++ (c.deathIo.map (fun io => .ioFreed io.uid) ++
      c.deathTimer.map (fun t => .timerFreed t.uid)) ++ l ∧
    (∀ e ∈ l, e.isFree = false) ∧ (l.filterMap Event.firedIo).Nodup ∧
    ∀ uid ∈ l.filterMap Event.firedIo, ∃ io ∈ c.runBuildFdset.iosnap, io.uid = uid
  died : (∀ io ∈ c.deathIo, .ioUnregistered io.uid ∈ c.log) ∧
    ∀ t ∈ c.deathTimer, .timerUnregistered t.uid ∈ c.log
  stale : AtEach NotStale (c.runOnce r).log
  held : ∀ ios timers d, Midway r c ios timers d → ios ⊆ d.ioRefs ∧ timers ⊆ d.timerRefs
  flags : ∀ d, Moment r c d → (∀ io ∈ d.ioList ++ d.deathIo, io.deleted = d.ioDeleted io.uid) ∧
    ∀ t ∈ d.timerList ++ d.deathTimer, t.deleted = d.timerDeleted t.uid
  fds : ∀ d, Moment r c d → (d.ioList.map Io.fd).Nodup
  ioCount : ∀ d, Moment r c d → d.ioCount = d.ioList.length

structure DispatchSafe (r : Round) (c : Context) : Prop extends RoundSafe r c where
  timerCount : ∀ d, Moment r c d → d.timerCount = d.timerList.length

theorem moment_intact {r : Round} {c d : Context} (h : Intact c) (hd : Moment r c d) : Intact d := by
  rcases hd with rfl | ⟨ios, timers, hm⟩
  · exact h
  · exact (midway_safe h hm).1

theorem Intact.roundSafe {c : Context} (h : Intact c) (r : Round) : RoundSafe r c where
  log := by
    obtain ⟨-, fired, hsub, hc⟩ := runOnce_safe r h
    obtain ⟨l, hl, hfree, hfired⟩ := hc.log
    have huids : (c.runBuildFdset.iosnap.map Io.uid).Nodup := by
      have hall := h.io.uids
      rw [List.map_append, List.map_map] at hall
      exact (List.nodup_append.mp hall).1.sublist ((List.take_sublist _ _).map Io.uid)
    refine ⟨l, by rw [hl]; simp [Context.runFreeDeath], hfree, ?_, ?_⟩
    · rw [hfired]
      exact huids.sublist hsub
    · intro uid huid
      rw [hfired] at huid
      exact List.mem_map.mp (hsub.subset huid)
  died := ⟨fun _ hio => h.io.dead_logged _ (List.mem_map_of_mem hio),
    fun _ ht => h.timer.dead_logged _ (List.mem_map_of_mem ht)⟩
  stale := (runOnce_safe r h).1.fires
  held := fun _ _ _ hm => (midway_safe h hm).2
  flags := fun _ hd => (moment_intact h hd).flag
  fds := fun _ hd => (moment_intact h hd).fds
  ioCount := fun _ hd => (moment_intact h hd).ioLength

theorem Intact.dispatchSafe_iff {c : Context} (h : Intact c) (r : Round) :
    DispatchSafe r c ↔ ∀ d, Moment r c d → d.timerList.length ≤ intMax := by
  constructor
  · intro hs d hd
    rw [← toInt_eq_iff, ← (moment_intact h hd).timerCount, hs.timerCount d hd]
  · intro hle
    refine ⟨h.roundSafe r, fun d hd => ?_⟩
    rw [(moment_intact h hd).timerCount, (toInt_eq_iff _).mpr (hle d hd)]

-- In every round of every run, whatever the callbacks register and unregister; `timer_count` is
-- right for as long as an `int` can hold it.
theorem dispatch_safe (steps : List Step) (r : Round) :
    RoundSafe r (runSteps steps create) ∧
      (DispatchSafe r (runSteps steps create) ↔
        ∀ d, Moment r (runSteps steps create) d → d.timerList.length ≤ intMax) :=
  have h := runSteps_intact steps create_intact
  ⟨h.roundSafe r, h.dispatchSafe_iff r⟩

-- So many timers, each at an address of its own.
def manyTimers : Nat → Script
  | 0 => []
  | n + 1 => manyTimers n ++ [.timerRegister 1000 (some n)]

theorem manyTimers_run (n : Nat) : ((manyTimers n).run create).timerList.length = n ∧
    ((manyTimers n).run create).ioList = [] ∧ ((manyTimers n).run create).deathIo = [] ∧
    ((manyTimers n).run create).deathTimer = [] ∧
    ∀ t ∈ ((manyTimers n).run create).timerList, t.addr < n := by
  induction n with
  | zero => exact ⟨rfl, rfl, rfl, rfl, nofun⟩
  | succ n ih =>
      have hrun : (manyTimers (n + 1)).run create =
          ((manyTimers n).run create).timerRegister 1000 (some n) := by
        simp [Script.run, manyTimers, Act.run]
      rw [hrun]
      generalize (manyTimers n).run create = c at ih ⊢
      obtain ⟨hlen, hio, hdio, hdtimer, haddr⟩ := ih
      have halloc : c.alloc (some n) = some n := by
        simp only [Context.alloc, hio, hdio, hdtimer, List.append_nil, List.map_nil,
          List.not_mem_nil, false_or]
        refine if_neg fun hmem => ?_
        obtain ⟨t, ht, heq⟩ := List.mem_map.mp hmem
        exact absurd (haddr t ht) (by omega)
      have hms : (1000 : UInt32) ≠ 0 := by decide
      simp only [Context.timerRegister, if_neg hms, halloc, Context.emit]
      refine ⟨by simp [hlen], hio, hdio, hdtimer, fun t ht => ?_⟩
      rcases List.mem_cons.mp ht with rfl | ht
      · exact Nat.lt_succ_self n
      · exact Nat.lt_succ_of_lt (haddr t ht)

theorem runSteps_calls (script : Script) (c : Context) :
    runSteps [.calls script] c = script.run c := rfl

theorem overfull_list_miscounted :
    ¬ DispatchSafe ⟨0, .eintr, [], [], []⟩ (runSteps [.calls (manyTimers 2147483648)] create) := by
  intro hs
  have h := runSteps_intact [.calls (manyTimers 2147483648)] create_intact
  have hle := (h.dispatchSafe_iff _).mp hs _ (.inl rfl)
  rw [runSteps_calls, (manyTimers_run 2147483648).1] at hle
  exact absurd hle (by decide)

end Sevent.Loop
