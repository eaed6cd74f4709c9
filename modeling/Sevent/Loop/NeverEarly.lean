import Mathlib.Data.List.Induction
import Sevent.Trace
import Sevent.Loop.Context

namespace Sevent.Loop

open Sevent.Trace

def Event.deltaOf : Event → Nat
  | .select delta => delta
  | _ => 0

-- The time the selects of a stretch of the log took.
def waited : List Event → Nat
  | [] => 0
  | e :: rest => e.deltaOf + waited rest

-- A timer's first fire comes after selects that lasted its whole interval.
def FiresOnTime (past : List Event) (e : Event) : Prop :=
  ∀ uid ms since, e = .timerFired uid → After (.timerRegistered uid ms) past since →
    .timerFired uid ∉ since → 1 ≤ ms.toNat → ms.toNat ≤ intMax → ms.toNat ≤ waited since

def NeverEarly (log : List Event) : Prop := AtEach FiresOnTime log

-- The registration of a timer the claim is about.
def Act.registersTimer : Act → Prop
  | .timerRegister ms _ => 1 ≤ ms.toNat ∧ ms.toNat ≤ intMax
  | _ => False

-- If run_timers is going to subtract this round's delta, no IO or post callback of the round
-- registers a timer: the delta was measured before the registration.
def Step.Safe (s : Step) (c : Context) : Prop :=
  match s with
  | .calls _ => True
  | .round r =>
      c.timerList ≠ [] → 0 < r.delta →
        ∀ script ∈ r.ioScripts ++ r.postScripts, ∀ a ∈ script, ¬ a.registersTimer

def SafeRun : List Step → Context → Prop
  | [], _ => True
  | s :: rest, c => s.Safe c ∧ SafeRun rest (s.run c)

-- A registration of `uid` that has neither fired nor been waited for.
def Pending (log : List Event) (uid : Nat) (ms : UInt32) (since : List Event) : Prop :=
  After (.timerRegistered uid ms) log since ∧ .timerFired uid ∉ since ∧
    1 ≤ ms.toNat ∧ ms.toNat ≤ intMax ∧ waited since < ms.toNat

def Due (log : List Event) (uid : Nat) : Prop := ∀ ms since, ¬ Pending log uid ms since

-- `slack` is the part of the waited time that run_timers has still to subtract.
def Ahead (log : List Event) (slack : Nat) (t : Timer) : Prop :=
  ∀ ms since, Pending log t.uid ms since →
    (ms.toNat : Int) + slack - waited since ≤ t.remainingMs ∧ t.remainingMs ≤ intMax

structure OnTime (slack : Nat) (c : Context) : Prop where
  fresh : ∀ t ∈ c.timerList, t.uid < c.nextUid
  registered : ∀ uid ms, .timerRegistered uid ms ∈ c.log → uid < c.nextUid
  never : NeverEarly c.log
  ahead : ∀ t ∈ c.timerList, Ahead c.log slack t

@[simp] theorem waited_nil : waited [] = 0 := rfl

@[simp] theorem waited_concat (since : List Event) (e : Event) :
    waited (since ++ [e]) = waited since + e.deltaOf := by
  induction since with
  | nil => simp [waited]
  | cons f rest ih =>
      rw [List.cons_append, waited, ih, waited]
      omega

theorem firesOnTime_fired (past : List Event) (uid : Nat) :
    FiresOnTime past (.timerFired uid) ↔ Due past uid := by
  constructor
  · rintro h ms since ⟨hafter, hfired, hone, hmax, hlt⟩
    have := h uid ms since rfl hafter hfired hone hmax
    omega
  · rintro h uid' ms since he hafter hfired hone hmax
    cases he
    by_contra hlt
    exact h ms since ⟨hafter, hfired, hone, hmax, by omega⟩

theorem firesOnTime_other (past : List Event) (e : Event) (he : ∀ uid, e ≠ .timerFired uid) :
    FiresOnTime past e :=
  fun uid _ _ h => absurd h (he uid)

theorem pending_concat {log since : List Event} {e : Event} {uid : Nat} {ms : UInt32}
    (h : Pending (log ++ [e]) uid ms since) :
    (since = [] ∧ e = .timerRegistered uid ms) ∨
      ∃ rest, since = rest ++ [e] ∧ Pending log uid ms rest ∧
        waited since = waited rest + e.deltaOf := by
  obtain ⟨hafter, hfired, hone, hmax, hlt⟩ := h
  rcases (after_concat log since _ e).mp hafter with ⟨rfl, he⟩ | ⟨rest, rfl, hrest⟩
  · exact .inl ⟨rfl, he.symm⟩
  · rw [waited_concat] at hlt ⊢
    refine .inr ⟨rest, rfl, ⟨hrest, ?_, hone, hmax, by omega⟩, rfl⟩
    intro hmem
    exact hfired (by simp [hmem])

-- An event that registers no timer `uid` leaves a due timer due.
theorem Due.concat {log : List Event} {uid : Nat} (h : Due log uid) (e : Event)
    (he : ∀ ms, e ≠ .timerRegistered uid ms) : Due (log ++ [e]) uid := by
  intro ms since hp
  rcases pending_concat hp with ⟨-, rfl⟩ | ⟨rest, -, hrest, -⟩
  · exact he ms rfl
  · exact h ms rest hrest

theorem Ahead.concat {log : List Event} {slack : Nat} {t : Timer} (h : Ahead log slack t)
    (e : Event) (he : ∀ ms, e ≠ .timerRegistered t.uid ms) :
    Ahead (log ++ [e]) (slack + e.deltaOf) t := by
  intro ms since hp
  rcases pending_concat hp with ⟨-, rfl⟩ | ⟨rest, -, hrest, hw⟩
  · exact absurd rfl (he ms)
  · have := h ms rest hrest
    rw [hw]
    omega

namespace Context

@[simp] theorem emit_log (c : Context) (e : Event) : (c.emit e).log = c.log ++ [e] := rfl
@[simp] theorem emit_timerList (c : Context) (e : Event) : (c.emit e).timerList = c.timerList := rfl
@[simp] theorem emit_nextUid (c : Context) (e : Event) : (c.emit e).nextUid = c.nextUid := rfl

end Context

-- Logging an event that concerns no registration keeps the invariant; a fire has to be due.
theorem OnTime.emit {slack : Nat} {c : Context} (h : OnTime slack c) (e : Event)
    (hreg : ∀ uid ms, e ≠ .timerRegistered uid ms) (hfire : ∀ uid, e = .timerFired uid → Due c.log uid) :
    OnTime (slack + e.deltaOf) (c.emit e) where
  fresh := h.fresh
  registered := by
    intro uid ms hm
    simp only [Context.emit_log, List.mem_append, List.mem_singleton] at hm
    exact hm.elim (h.registered uid ms) (fun he => absurd he.symm (hreg uid ms))
  never := by
    refine (atEach_concat _ _ _).mpr ⟨h.never, ?_⟩
    by_cases hf : ∃ uid, e = .timerFired uid
    · obtain ⟨uid, rfl⟩ := hf
      exact (firesOnTime_fired _ uid).mpr (hfire uid rfl)
    · exact firesOnTime_other _ _ (fun uid he => hf ⟨uid, he⟩)
  ahead := fun t ht => (h.ahead t ht).concat e (hreg t.uid)

def Event.quiet : Event → Bool
  | .select _ | .timerRegistered _ _ | .timerFired _ => false
  | _ => true

-- Only the timer list, the log and the counter of registrations matter to the invariant.
theorem OnTime.congr {slack : Nat} {c d : Context} (h : OnTime slack c)
    (hsub : ∀ t ∈ d.timerList, t ∈ c.timerList) (hlog : d.log = c.log)
    (huid : c.nextUid ≤ d.nextUid) : OnTime slack d where
  fresh := fun t ht => Nat.lt_of_lt_of_le (h.fresh t (hsub t ht)) huid
  registered := fun uid ms hm => Nat.lt_of_lt_of_le (h.registered uid ms (hlog ▸ hm)) huid
  never := hlog ▸ h.never
  ahead := fun t ht => hlog ▸ h.ahead t (hsub t ht)

theorem OnTime.weaken {slack : Nat} {c : Context} (h : OnTime slack c) : OnTime 0 c where
  fresh := h.fresh
  registered := h.registered
  never := h.never
  ahead := by
    intro t ht ms since hp
    have := h.ahead t ht ms since hp
    omega

theorem OnTime.logged {slack : Nat} {c d : Context} {e : Event} (h : OnTime slack c)
    (hsub : ∀ t ∈ d.timerList, t ∈ c.timerList) (hlog : d.log = c.log ++ [e])
    (huid : c.nextUid ≤ d.nextUid) (he : e.quiet = true) : OnTime slack d := by
  have hreg : ∀ uid ms, e ≠ .timerRegistered uid ms := by rintro uid ms rfl; cases he
  have hfire : ∀ uid, e ≠ .timerFired uid := by rintro uid rfl; cases he
  have hd : e.deltaOf = 0 := by cases e <;> first | rfl | cases he
  have hemit := h.emit e hreg (fun uid h => absurd h (hfire uid))
  rw [hd, Nat.add_zero] at hemit
  exact hemit.congr hsub hlog huid

theorem OnTime.ioRegister {slack : Nat} {c : Context} (h : OnTime slack c) (fd : Int)
    (ioRead ioWrite : Bool) (pick : Option Nat) :
    OnTime slack (c.ioRegister fd ioRead ioWrite pick) := by
  unfold Context.ioRegister
  repeat' split
  all_goals first
    | exact h
    | exact h.logged (fun _ ht => ht) rfl (Nat.le_succ _) rfl

theorem OnTime.ioUnregister {slack : Nat} {c : Context} (h : OnTime slack c) (addr : Nat) :
    OnTime slack (c.ioUnregister addr) := by
  unfold Context.ioUnregister
  split
  · exact h
  · exact h.logged (fun _ ht => ht) rfl (Nat.le_refl _) rfl

theorem OnTime.timerUnregister {slack : Nat} {c : Context} (h : OnTime slack c) (addr : Nat) :
    OnTime slack (c.timerUnregister addr) := by
  unfold Context.timerUnregister
  split
  · exact h
  · exact h.logged (fun _ ht => List.mem_of_mem_eraseP ht) rfl (Nat.le_refl _) rfl

theorem OnTime.post {slack : Nat} {c : Context} (h : OnTime slack c) (ok : Bool) :
    OnTime slack (c.post ok) := by
  unfold Context.post
  split
  · exact h
  · exact h.logged (fun _ ht => ht) rfl (Nat.le_succ _) rfl

-- A new timer starts with its whole interval; nothing may be left to subtract from it.
theorem OnTime.timerRegister {slack : Nat} {c : Context} (h : OnTime slack c) (ms : UInt32)
    (pick : Option Nat) (hslack : slack = 0 ∨ ¬ (1 ≤ ms.toNat ∧ ms.toNat ≤ intMax)) :
    OnTime slack (c.timerRegister ms pick) := by
  unfold Context.timerRegister
  split
  · exact h
  split
  · exact h
  rename_i addr _
  have hnew : ∀ ms' since, ¬ Pending c.log c.nextUid ms' since := by
    rintro ms' since ⟨hafter, -⟩
    exact absurd (h.registered _ _ hafter.mem) (Nat.lt_irrefl _)
  refine ⟨?_, ?_, ?_, ?_⟩
  · intro t ht
    simp only [Context.emit_timerList, List.mem_cons] at ht
    rcases ht with rfl | ht
    · exact Nat.lt_succ_self _
    · exact Nat.lt_succ_of_lt (h.fresh t ht)
  · intro uid ms' hm
    simp only [Context.emit_log, List.mem_append, List.mem_singleton, Event.timerRegistered.injEq] at hm
    rcases hm with hm | ⟨rfl, -⟩
    · exact Nat.lt_succ_of_lt (h.registered uid ms' hm)
    · exact Nat.lt_succ_self _
  · exact (atEach_concat _ _ _).mpr ⟨h.never, firesOnTime_other _ _ (by simp)⟩
  · intro t ht
    simp only [Context.emit_timerList, List.mem_cons] at ht
    rcases ht with rfl | ht
    · intro ms' since hp
      obtain ⟨-, -, hone, hmax, -⟩ := id hp
      rcases pending_concat hp with ⟨rfl, he⟩ | ⟨rest, -, hrest, -⟩
      · cases he
        have hs : slack = 0 := hslack.resolve_right (fun hn => hn ⟨hone, hmax⟩)
        subst hs
        simp only [toInt_of_small (Int.natCast_nonneg _) (Int.ofNat_le.mpr hmax)]
        simp
        exact hmax
      · exact absurd hrest (hnew ms' rest)
    · refine (h.ahead t ht).concat _ ?_
      intro ms' he
      have hlt := h.fresh t ht
      simp only [Event.timerRegistered.injEq] at he
      omega

theorem OnTime.act {slack : Nat} {c : Context} (h : OnTime slack c) (a : Act)
    (ha : slack = 0 ∨ ¬ a.registersTimer) : OnTime slack (a.run c) := by
  cases a with
  | ioRegister fd r w pick => exact h.ioRegister fd r w pick
  | ioUnregister addr => exact h.ioUnregister addr
  | timerRegister ms pick => exact h.timerRegister ms pick ha
  | timerUnregister addr => exact h.timerUnregister addr
  | post ok => exact h.post ok

theorem OnTime.script {slack : Nat} (s : Script) {c : Context} (h : OnTime slack c)
    (hs : slack = 0 ∨ ∀ a ∈ s, ¬ a.registersTimer) : OnTime slack (s.run c) := by
  unfold Script.run
  induction s generalizing c with
  | nil => exact h
  | cons a rest ih =>
      refine ih (h.act a ?_) ?_
      · exact hs.imp_right (fun hs => hs a (by simp))
      · exact hs.imp_right (fun hs b hb => hs b (by simp [hb]))

-- What the scripts of a phase may do while `slack` is outstanding.
def Quiet (slack : Nat) (scripts : List Script) : Prop :=
  slack = 0 ∨ ∀ s ∈ scripts, ∀ a ∈ s, ¬ a.registersTimer

theorem Quiet.next {slack : Nat} {scripts : List Script} (h : Quiet slack scripts) :
    (slack = 0 ∨ ∀ a ∈ (Script.next scripts).1, ¬ a.registersTimer) ∧
      Quiet slack (Script.next scripts).2 := by
  cases scripts with
  | nil => exact ⟨.inr (by simp [Script.next]), .inr (by simp [Script.next])⟩
  | cons s rest =>
      exact ⟨h.imp_right (fun h => h s (by simp)),
        h.imp_right (fun h s' hs => h s' (by simp only [Script.next] at hs; simp [hs]))⟩

theorem OnTime.runIoCallbacks {slack : Nat} (readable writable : List Nat) (snap : List Io)
    {scripts : List Script} {c : Context} (h : OnTime slack c) (hq : Quiet slack scripts) :
    OnTime slack (c.runIoCallbacks readable writable snap scripts) := by
  induction snap generalizing scripts c with
  | nil => exact h
  | cons io snap ih =>
      unfold Context.runIoCallbacks
      split
      · exact ih h hq
      split
      · exact ih h hq
      split
      · have hf : OnTime slack (c.emit (.ioFired io.uid)) :=
          h.logged (fun _ ht => ht) rfl (Nat.le_refl _) rfl
        exact ih (hf.script _ hq.next.1) hq.next.2
      · exact ih h hq

theorem OnTime.runPostBatch {slack : Nat} (batch : List Nat) {scripts : List Script} {c : Context}
    (h : OnTime slack c) (hq : Quiet slack scripts) :
    OnTime slack (c.runPostBatch batch scripts) := by
  induction batch generalizing scripts c with
  | nil => exact h
  | cons p batch ih =>
      have hf : OnTime slack (c.emit (.postRan p)) :=
        h.logged (fun _ ht => ht) rfl (Nat.le_refl _) rfl
      exact ih (hf.script _ hq.next.1) hq.next.2

theorem OnTime.runPosts {slack : Nat} {scripts : List Script} {c : Context} (h : OnTime slack c)
    (hq : Quiet slack scripts) : OnTime slack (c.runPosts scripts) := by
  have hswap : OnTime slack { c with postPending := [], postPendingCount := 0 } :=
    h.congr (fun _ ht => ht) rfl (Nat.le_refl _)
  exact hswap.runPostBatch c.postPending hq

theorem catchUp_of_pos (ms : UInt32) (fuel : Nat) {remaining : Int} (h : 0 < remaining) :
    catchUp ms fuel remaining = (0, remaining) := by
  cases fuel with
  | zero => rfl
  | succ fuel => simp [catchUp, Int.not_le.mpr h]

-- Phase A: a timer that is collected is due, and one that is not has its delta subtracted.
theorem collectExpired_spec (log : List Event) (delta : Nat) (timers : List Timer) (n : Nat)
    (h : ∀ t ∈ timers, Ahead log delta t) :
    (∀ t ∈ (collectExpired delta timers n).1, Ahead log 0 t ∧ ∃ t' ∈ timers, t'.uid = t.uid) ∧
      ∀ x ∈ (collectExpired delta timers n).2, Due log x.1 ∧ ∃ t ∈ timers, t.uid = x.1 := by
  induction timers generalizing n with
  | nil => simp [collectExpired]
  | cons t rest ih =>
      have ht := h t (by simp)
      have ihr := fun n => ih n (fun t' h' => h t' (by simp [h']))
      have hlift : ∀ n, (∀ t' ∈ (collectExpired delta rest n).1,
            Ahead log 0 t' ∧ ∃ s ∈ t :: rest, s.uid = t'.uid) ∧
          ∀ x ∈ (collectExpired delta rest n).2, Due log x.1 ∧ ∃ s ∈ t :: rest, s.uid = x.1 := by
        intro n
        obtain ⟨hl, hr⟩ := ihr n
        refine ⟨fun t' h' => ⟨(hl t' h').1, ?_⟩, fun x hx => ⟨(hr x hx).1, ?_⟩⟩
        · obtain ⟨s, hs, hu⟩ := (hl t' h').2
          exact ⟨s, by simp [hs], hu⟩
        · obtain ⟨s, hs, hu⟩ := (hr x hx).2
          exact ⟨s, by simp [hs], hu⟩
      -- a pending timer keeps a positive remainder and is not collected
      have hpend : ∀ ms since, Pending log t.uid ms since →
          catchUp t.intervalMs maxFirePerTimer (toInt (t.remainingMs - toInt delta)) =
            (0, t.remainingMs - delta) ∧ 0 < t.remainingMs - delta := by
        intro ms since hp
        obtain ⟨hlo, hhi⟩ := ht ms since hp
        have hlt := hp.2.2.2.2
        have hd : toInt delta = delta := toInt_of_small (Int.natCast_nonneg _) (by omega)
        have hr : toInt (t.remainingMs - delta) = t.remainingMs - delta :=
          toInt_of_small (by omega) (by omega)
        rw [hd, hr, catchUp_of_pos _ _ (by omega)]
        exact ⟨rfl, by omega⟩
      have hdue : 0 < (catchUp t.intervalMs maxFirePerTimer
          (toInt (t.remainingMs - toInt delta))).1 → Due log t.uid := by
        intro hpos ms since hp
        rw [(hpend ms since hp).1] at hpos
        exact Nat.lt_irrefl _ hpos
      unfold collectExpired
      split
      · refine ⟨fun t' h' => ?_, fun x hx => (hlift n).2 x hx⟩
        rcases List.mem_cons.mp h' with rfl | h'
        · refine ⟨fun ms since hp => ?_, _, List.mem_cons_self, rfl⟩
          have := ht ms since hp
          omega
        · exact (hlift n).1 t' h'
      dsimp only
      split
      · rename_i hc
        refine ⟨fun t' h' => ?_, fun x hx => ?_⟩
        · rcases List.mem_cons.mp h' with rfl | h'
          · exact ⟨fun ms since hp => absurd hp (hdue hc.1 ms since), t, List.mem_cons_self, rfl⟩
          · exact (hlift (n + 1)).1 t' h'
        · rcases List.mem_cons.mp hx with rfl | hx
          · exact ⟨hdue hc.1, t, List.mem_cons_self, rfl⟩
          · exact (hlift (n + 1)).2 x hx
      split
      · rename_i hc
        refine ⟨fun t' h' => ?_, fun x hx => (hlift n).2 x hx⟩
        rcases List.mem_cons.mp h' with rfl | h'
        · exact ⟨fun ms since hp => absurd hp (hdue hc ms since), t, List.mem_cons_self, rfl⟩
        · exact (hlift n).1 t' h'
      · refine ⟨fun t' h' => ?_, fun x hx => (hlift n).2 x hx⟩
        rcases List.mem_cons.mp h' with rfl | h'
        · refine ⟨fun ms since hp => ?_, t, List.mem_cons_self, rfl⟩
          obtain ⟨he, hpos⟩ := hpend ms since hp
          have := ht ms since hp
          simp only [he]
          omega
        · exact (hlift n).1 t' h'

-- The log only grows, and a registration found in the new part has a new number.
def Grows (c d : Context) : Prop :=
  c.nextUid ≤ d.nextUid ∧ ∃ new, d.log = c.log ++ new ∧
    ∀ uid ms, Event.timerRegistered uid ms ∈ new → c.nextUid ≤ uid

theorem Grows.refl (c : Context) : Grows c c := ⟨Nat.le_refl _, [], by simp, by simp⟩

theorem Grows.trans {c d e : Context} (h : Grows c d) (h' : Grows d e) : Grows c e := by
  obtain ⟨hle, new, hlog, hnew⟩ := h
  obtain ⟨hle', new', hlog', hnew'⟩ := h'
  refine ⟨Nat.le_trans hle hle', new ++ new', by simp [hlog', hlog], ?_⟩
  intro uid ms hm
  rcases List.mem_append.mp hm with hm | hm
  · exact hnew uid ms hm
  · exact Nat.le_trans hle (hnew' uid ms hm)

theorem Grows.event {c d : Context} (e : Event) (hlog : d.log = c.log ++ [e])
    (hle : c.nextUid ≤ d.nextUid)
    (he : ∀ uid ms, e = .timerRegistered uid ms → c.nextUid ≤ uid) : Grows c d :=
  ⟨hle, [e], hlog, fun uid ms hm => he uid ms (List.mem_singleton.mp hm).symm⟩

theorem grows_act (a : Act) (c : Context) : Grows c (a.run c) := by
  cases a with
  | ioRegister fd r w pick =>
      simp only [Act.run, Context.ioRegister]
      repeat' split
      all_goals first
        | exact .refl c
        | exact .event _ rfl (Nat.le_succ _) (by simp)
  | ioUnregister h =>
      simp only [Act.run, Context.ioUnregister]
      split
      · exact .refl c
      · exact .event _ rfl (Nat.le_refl _) (by simp)
  | timerRegister ms pick =>
      simp only [Act.run, Context.timerRegister]
      split
      · exact .refl c
      split
      · exact .refl c
      · exact .event _ rfl (Nat.le_succ _) (by simp +contextual)
  | timerUnregister h =>
      simp only [Act.run, Context.timerUnregister]
      split
      · exact .refl c
      · exact .event _ rfl (Nat.le_refl _) (by simp)
  | post ok =>
      simp only [Act.run, Context.post]
      split
      · exact .refl c
      · exact .event _ rfl (Nat.le_succ _) (by simp)

theorem grows_script (s : Script) (c : Context) : Grows c (s.run c) := by
  unfold Script.run
  induction s generalizing c with
  | nil => exact .refl c
  | cons a rest ih => exact (grows_act a c).trans (ih (a.run c))

theorem Due.grows {c d : Context} {uid : Nat} (h : Due c.log uid) (huid : uid < c.nextUid)
    (hg : Grows c d) : Due d.log uid := by
  obtain ⟨-, new, hlog, hnew⟩ := hg
  rw [hlog]
  clear hlog
  induction new using List.reverseRecOn with
  | nil => simpa using h
  | append_singleton new e ih =>
      rw [← List.append_assoc]
      refine Due.concat (ih ?_) e ?_
      · exact fun uid' ms hm => hnew uid' ms (by simp [hm])
      · rintro ms rfl
        exact absurd (hnew uid ms (by simp)) (Nat.not_le.mpr huid)

theorem Context.emit_grows (c : Context) (e : Event) (he : ∀ uid ms, e ≠ .timerRegistered uid ms) :
    Grows c (c.emit e) :=
  .event e rfl (Nat.le_refl _) (fun uid ms h => absurd h (he uid ms))

-- Phase B. The entries collected in phase A stay due while callbacks register and unregister.
theorem OnTime.fireBurst (uid times : Nat) (scripts : List Script) {c : Context} (h : OnTime 0 c)
    (hdue : Due c.log uid) (huid : uid < c.nextUid) :
    OnTime 0 (c.fireBurst uid times scripts).1 ∧ Grows c (c.fireBurst uid times scripts).1 := by
  induction times generalizing scripts c with
  | zero => exact ⟨h, .refl c⟩
  | succ times ih =>
      unfold Context.fireBurst
      split
      · exact ⟨h, .refl c⟩
      · have hf : OnTime 0 (c.emit (.timerFired uid)) :=
          h.emit (.timerFired uid) (by simp) (fun uid' he => by cases he; exact hdue)
        have hg : Grows c ((Script.next scripts).1.run (c.emit (.timerFired uid))) :=
          (c.emit_grows _ (by simp)).trans (grows_script _ _)
        obtain ⟨ho, hgo⟩ := ih (Script.next scripts).2
          (hf.script (Script.next scripts).1 (.inl rfl)) (hdue.grows huid hg)
          (Nat.lt_of_lt_of_le huid hg.1)
        exact ⟨ho, hg.trans hgo⟩

theorem OnTime.fireExpired (expired : List (Nat × Nat)) {scripts : List Script} {c : Context}
    (h : OnTime 0 c) (hdue : ∀ x ∈ expired, Due c.log x.1 ∧ x.1 < c.nextUid) :
    OnTime 0 (c.fireExpired expired scripts) := by
  induction expired generalizing scripts c with
  | nil => exact h
  | cons x rest ih =>
      obtain ⟨hx, hu⟩ := hdue x (by simp)
      obtain ⟨ho, hg⟩ := h.fireBurst x.1 x.2 scripts hx hu
      refine ih ho (fun y hy => ?_)
      obtain ⟨hy', huy⟩ := hdue y (by simp [hy])
      exact ⟨hy'.grows huy hg, Nat.lt_of_lt_of_le huy hg.1⟩

theorem OnTime.runTimers {slack delta : Nat} {hasTimer : Bool} {scripts : List Script}
    {c : Context} (h : OnTime slack c)
    (hslack : slack = if hasTimer then delta else 0) :
    OnTime 0 (c.runTimers hasTimer delta scripts) := by
  unfold Context.runTimers
  split
  · rename_i hskip
    have : slack = 0 := by
      rw [hslack]
      cases hasTimer <;> simp_all
    exact this ▸ h
  · rename_i hrun
    have hd : slack = delta := by
      rw [hslack]
      cases hasTimer <;> simp_all
    subst hd
    obtain ⟨htimers, hexp⟩ := collectExpired_spec c.log slack c.timerList 0 h.ahead
    refine OnTime.fireExpired _ ⟨?_, h.registered, h.never, fun t ht => (htimers t ht).1⟩ ?_
    · intro t ht
      obtain ⟨t', ht', hu⟩ := (htimers t ht).2
      exact hu ▸ h.fresh t' ht'
    · intro x hx
      obtain ⟨hdue, t, ht, hu⟩ := hexp x hx
      exact ⟨hdue, hu ▸ h.fresh t ht⟩

theorem OnTime.runFreeDeath {c : Context} (h : OnTime 0 c) : OnTime 0 c.runFreeDeath := by
  have hfold : ∀ (new : List Event) (d : Context), OnTime 0 d → (∀ e ∈ new, e.quiet = true) →
      OnTime 0 { d with log := d.log ++ new } := by
    intro new
    induction new with
    | nil => intro d hd _; simpa using hd
    | cons e new ih =>
        intro d hd hq
        have hemit : OnTime 0 (d.emit e) :=
          hd.logged (fun _ ht => ht) rfl (Nat.le_refl _) (hq e (by simp))
        have := ih (d.emit e) hemit (fun e' he' => hq e' (by simp [he']))
        simpa [Context.emit] using this
  have hdead : OnTime 0 { c with deathIo := [], deathTimer := [] } :=
    h.congr (fun _ ht => ht) rfl (Nat.le_refl _)
  have := hfold (c.deathIo.map (fun io => .ioFreed io.uid) ++
    c.deathTimer.map (fun t => .timerFreed t.uid)) _ hdead (by
      intro e he
      simp only [List.mem_append, List.mem_map] at he
      rcases he with ⟨_, _, rfl⟩ | ⟨_, _, rfl⟩ <;> rfl)
  simpa [Context.runFreeDeath] using this

theorem OnTime.runOnce {c : Context} (h : OnTime 0 c) (r : Round)
    (hsafe : (Step.round r).Safe c) : OnTime 0 (c.runOnce r) := by
  have h0 := h.runFreeDeath
  have htimers : c.runFreeDeath.timerList = c.timerList := rfl
  unfold Context.runOnce
  generalize hc : c.runFreeDeath = d at h0 htimers ⊢
  dsimp only
  have hhas : d.runBuildFdset.hasTimer = !c.timerList.isEmpty := by
    simp [Context.runBuildFdset, htimers]
  -- the slack of the round: the delta, if run_timers is going to run
  obtain ⟨slack, hslack⟩ :
      ∃ slack, slack = if d.runBuildFdset.hasTimer then r.delta else 0 := ⟨_, rfl⟩
  have hsel : OnTime slack (d.emit (.select r.delta)) := by
    cases hl : c.timerList with
    | nil =>
        have hz : slack = 0 := by rw [hslack, hhas, hl]; rfl
        have hb := h0.emit (.select r.delta) (by simp) (by simp)
        have hnil : d.timerList = [] := htimers.trans hl
        subst hz
        exact ⟨by simp [hnil], hb.registered, hb.never, by simp [hnil]⟩
    | cons t rest =>
        have hz : slack = r.delta := by rw [hslack, hhas, hl]; rfl
        have hb := h0.emit (.select r.delta) (by simp) (by simp)
        simpa [hz, Event.deltaOf] using hb
  have hquiet : Quiet slack (r.ioScripts ++ r.postScripts) := by
    by_cases hz : slack = 0
    · exact .inl hz
    · refine .inr (hsafe ?_ ?_)
      · rintro hn
        exact hz (by rw [hslack, hhas, hn]; rfl)
      · rw [hslack] at hz
        split at hz <;> omega
  have hio : Quiet slack r.ioScripts :=
    hquiet.imp_right (fun hq s hs => hq s (by simp [hs]))
  have hpost : Quiet slack r.postScripts :=
    hquiet.imp_right (fun hq s hs => hq s (by simp [hs]))
  split
  · split
    · exact hsel.weaken
    · exact ((hsel.runIoCallbacks _ _ _ hio).runPosts hpost).runTimers hslack
    · exact (hsel.runPosts hpost).runTimers hslack
  · exact (h0.runPosts (.inl rfl)).runTimers (by simp)

theorem onTime_create : OnTime 0 create :=
  ⟨by simp [create], by simp [create], atEach_nil _, by simp [create]⟩

theorem OnTime.step {c : Context} (h : OnTime 0 c) (s : Step) (hsafe : s.Safe c) :
    OnTime 0 (s.run c) := by
  cases s with
  | round r => exact h.runOnce r hsafe
  | calls script => exact h.script script (.inl rfl)

theorem OnTime.run (steps : List Step) {c : Context} (h : OnTime 0 c) (hsafe : SafeRun steps c) :
    OnTime 0 (runSteps steps c) := by
  unfold runSteps
  induction steps generalizing c with
  | nil => exact h
  | cons s rest ih => exact ih (h.step s hsafe.1) hsafe.2

-- In a run whose rounds register no timer between the measurement of a delta and its
-- subtraction, no timer fires before its interval has been waited for.
theorem timers_never_early (steps : List Step) (hsafe : SafeRun steps create) :
    NeverEarly (runSteps steps create).log :=
  (onTime_create.run steps hsafe).never

-- An IO handle and a long timer; the IO callback of a later round adds a 1000 ms timer.
def lateRegistration : List Step :=
  [.calls [.ioRegister 5 true false (some 1), .timerRegister 10000 (some 2)],
    .round
      { elapsed := 5000, result := .ready [5] [], ioScripts := [[.timerRegister 1000 (some 3)]],
        postScripts := [], timerScripts := [] }]

-- The new timer fires in the round that registers it, after no select at all.
theorem late_registration_fires_early :
    ¬ NeverEarly (runSteps lateRegistration create).log := by
  intro h
  have hlog : (runSteps lateRegistration create).log =
      [.ioRegistered 0, .timerRegistered 1 10000, .select 5000, .ioFired 0,
        .timerRegistered 2 1000] ++ .timerFired 2 :: List.replicate 4 (.timerFired 2) := by
    decide +kernel
  have := h _ _ _ hlog 2 1000 [] rfl
    ⟨[.ioRegistered 0, .timerRegistered 1 10000, .select 5000, .ioFired 0], rfl⟩
    (by simp) (by decide) (by decide)
  simp at this

-- A timer registered between rounds, and one registered by a timer callback.
def earlyRegistration : List Step :=
  [.calls [.timerRegister 300 (some 1)],
    .round
      { elapsed := 200, result := .eintr, ioScripts := [], postScripts := [], timerScripts := [] },
    .round
      { elapsed := 200, result := .eintr, ioScripts := [], postScripts := [],
        timerScripts := [[.timerRegister 100 (some 2)]] }]

theorem early_registration_on_time :
    SafeRun earlyRegistration create ∧ NeverEarly (runSteps earlyRegistration create).log := by
  have hsafe : SafeRun earlyRegistration create := by
    simp [earlyRegistration, SafeRun, Step.Safe]
  exact ⟨hsafe, timers_never_early _ hsafe⟩

end Sevent.Loop
