import Mathlib.Tactic.Linarith
import Mathlib.Tactic.Ring
import Sevent.Loop.Dispatch

-- run_timers over a whole run: what has been subtracted from each timer, and what it has fired
-- for that.
namespace Sevent.Loop

-- A call of run_timers, or calls of the API in between (callbacks of IO handles and posts too).
inductive Tick where
  | timers (delta : Nat) (scripts : List Script)
  | calls (script : Script)
  | freeDeath
  deriving DecidableEq, Repr

def Timer.live (uid : Nat) (timers : List Timer) : Bool := timers.any (·.uid == uid)

-- `applied` is what the calls so far had to subtract from a timer, in milliseconds.
structure Metered where
  ctx : Context
  applied : Nat → Nat

namespace Metered

def start : Metered := ⟨create, fun _ => 0⟩

def fires (m : Metered) (uid : Nat) : Nat := m.ctx.log.count (.timerFired uid)

end Metered

def meter (delta : Nat) (timers : List Timer) (applied : Nat → Nat) (uid : Nat) : Nat :=
  applied uid + if Timer.live uid timers then delta else 0

def Tick.run (s : Tick) (m : Metered) : Metered :=
  match s with
  | .timers delta scripts =>
      ⟨m.ctx.runTimers true delta scripts, meter delta m.ctx.timerList m.applied⟩
  | .calls script => { m with ctx := script.run m.ctx }
  | .freeDeath => { m with ctx := m.ctx.runFreeDeath }

def runTicks (steps : List Tick) (m : Metered) : Metered := steps.foldl (fun m s => s.run m) m

def eachTick (P : Tick → Metered → Prop) : List Tick → Metered → Prop
  | [], _ => True
  | s :: rest, m => P s m ∧ eachTick P rest (s.run m)

-- The fires that one call counts for a timer, and what remains.
def Timer.caught (delta : Nat) (t : Timer) : Nat × Int :=
  catchUp t.intervalMs maxFirePerTimer (toInt (t.remainingMs - toInt delta))

def Timer.times (delta : Nat) (t : Timer) : Nat := (t.caught delta).1

-- What the entries of `expired` say about a timer.
def owed (uid : Nat) : List (Nat × Nat) → Nat
  | [] => 0
  | x :: rest => (if x.1 = uid then x.2 else 0) + owed uid rest

-- ---- phase A ----

def InInt (x : Int) : Prop := -2147483648 ≤ x ∧ x ≤ 2147483647

instance (x : Int) : Decidable (InInt x) := inferInstanceAs (Decidable (_ ∧ _))

-- The additions of the catch-up loop fit in an int.
def catchUpFits (intervalMs : UInt32) : Nat → Int → Prop
  | 0, _ => True
  | fuel + 1, remaining =>
      remaining ≤ 0 → InInt (remaining + toInt intervalMs.toNat) ∧
        catchUpFits intervalMs fuel (remaining + toInt intervalMs.toNat)

theorem toInt_inInt {x : Int} (h : InInt x) : toInt x = x := by
  obtain ⟨hlo, hhi⟩ := h
  unfold toInt
  rw [Int.bmod_eq_of_le] <;> omega

-- An interval that an int can hold.
def Sized (ms : UInt32) : Prop := 1 ≤ ms.toNat ∧ ms.toNat ≤ intMax

theorem Sized.toInt {ms : UInt32} (h : Sized ms) : toInt ms.toNat = (ms.toNat : Int) :=
  toInt_of_small (Int.natCast_nonneg _) (Int.ofNat_le.mpr h.2)

structure Caught (ms : UInt32) (fuel : Nat) (remaining : Int) : Prop where
  fits : catchUpFits ms fuel remaining
  left : (catchUp ms fuel remaining).2 = remaining + (catchUp ms fuel remaining).1 * ms.toNat
  idle : 0 < remaining → (catchUp ms fuel remaining).1 = 0
  fired : remaining ≤ 0 → 0 < fuel → 0 < (catchUp ms fuel remaining).1
  last : 0 < (catchUp ms fuel remaining).1 → (catchUp ms fuel remaining).2 ≤ ms.toNat
  done : (catchUp ms fuel remaining).1 < fuel → 0 < (catchUp ms fuel remaining).2

theorem catchUp_caught {ms : UInt32} (hms : Sized ms) (fuel : Nat) {remaining : Int}
    (hr : InInt remaining) : Caught ms fuel remaining := by
  induction fuel generalizing remaining with
  | zero =>
      exact ⟨trivial, by simp [catchUp], fun _ => rfl, fun _ h => absurd h (Nat.lt_irrefl 0),
        fun h => absurd h (Nat.lt_irrefl 0), fun h => absurd h (Nat.not_lt_zero _)⟩
  | succ fuel ih =>
      by_cases hpos : 0 < remaining
      · have heq : catchUp ms (fuel + 1) remaining = (0, remaining) := by
          rw [catchUp, if_neg (Int.not_le.mpr hpos)]
        refine ⟨fun h => absurd h (Int.not_le.mpr hpos), ?_, ?_, ?_, ?_, ?_⟩ <;> rw [heq]
        · simp
        · exact fun _ => rfl
        · exact fun h => absurd hpos (Int.not_lt.mpr h)
        · exact fun h => absurd h (Nat.lt_irrefl 0)
        · exact fun _ => hpos
      · have hle : remaining ≤ 0 := Int.not_lt.mp hpos
        obtain ⟨hlo, hhi⟩ := hr
        obtain ⟨hone, hmax⟩ := id hms
        unfold intMax at hmax
        have hnext : InInt (remaining + ms.toNat) := ⟨by omega, by omega⟩
        obtain ⟨hfits, hleft, hidle, -, hlast, hdone⟩ := ih hnext
        have heq : catchUp ms (fuel + 1) remaining =
            ((catchUp ms fuel (remaining + ms.toNat)).1 + 1,
              (catchUp ms fuel (remaining + ms.toNat)).2) := by
          rw [catchUp, if_pos hle, hms.toInt, toInt_inInt hnext]
        have hstep : (catchUp ms fuel (remaining + ms.toNat)).2 ≤ ms.toNat := by
          by_cases hzero : (catchUp ms fuel (remaining + ms.toNat)).1 = 0
          · rw [hzero] at hleft
            omega
          · exact hlast (Nat.pos_of_ne_zero hzero)
        refine ⟨fun _ => ?_, ?_, ?_, ?_, ?_, ?_⟩
        · rw [hms.toInt]
          exact ⟨hnext, hfits⟩
        all_goals rw [heq]
        · dsimp only
          rw [hleft]
          push_cast
          ring
        · exact fun h => absurd h hpos
        · exact fun _ _ => Nat.succ_pos _
        · exact fun _ => hstep
        · exact fun h => hdone (Nat.lt_of_succ_lt_succ h)

def dueCount (delta : Nat) (timers : List Timer) : Nat :=
  timers.countP fun t => 0 < t.times delta

-- What phase A makes of a timer: all it has to fire is entered, or there is no room and it is
-- put off.
def Served (delta n : Nat) (timers : List Timer) (expired : List (Nat × Nat)) (t t' : Timer) : Prop :=
  t'.uid = t.uid ∧ t'.intervalMs = t.intervalMs ∧
    (owed t.uid expired = t.times delta ∧ t'.remainingMs = (t.caught delta).2 ∨
      owed t.uid expired = 0 ∧ t'.remainingMs = 1 ∧ 0 < t.times delta ∧
        maxExpiredPerTick < n + dueCount delta timers)

theorem owed_none {uid : Nat} {expired : List (Nat × Nat)} (h : ∀ x ∈ expired, x.1 ≠ uid) :
    owed uid expired = 0 := by
  induction expired with
  | nil => rfl
  | cons x rest ih =>
      rw [owed, if_neg (h x List.mem_cons_self), ih fun y hy => h y (List.mem_cons_of_mem x hy)]

theorem dueCount_cons (delta : Nat) (t : Timer) (timers : List Timer) :
    dueCount delta (t :: timers) = dueCount delta timers + if 0 < t.times delta then 1 else 0 := by
  simp [dueCount, List.countP_cons]

theorem collectExpired_cons {delta : Nat} {t : Timer} (hlive : t.deleted = false)
    (rest : List Timer) (n : Nat) :
    collectExpired delta (t :: rest) n =
      if 0 < t.times delta ∧ n < maxExpiredPerTick then
        ({ t with remainingMs := (t.caught delta).2 } :: (collectExpired delta rest (n + 1)).1,
          (t.uid, t.times delta) :: (collectExpired delta rest (n + 1)).2)
      else
        ({ t with remainingMs := if 0 < t.times delta then 1 else (t.caught delta).2 } ::
          (collectExpired delta rest n).1, (collectExpired delta rest n).2) := by
  have hcaught : catchUp t.intervalMs maxFirePerTimer (toInt (t.remainingMs - toInt delta)) =
      (t.times delta, (t.caught delta).2) := rfl
  rw [collectExpired, if_neg (by simp [hlive])]
  simp only [hcaught]
  by_cases hdue : 0 < t.times delta
  · by_cases hroom : n < maxExpiredPerTick
    · rw [if_pos ⟨hdue, hroom⟩, if_pos ⟨hdue, hroom⟩]
    · rw [if_neg fun h => hroom h.2, if_pos hdue, if_neg fun h => hroom h.2, if_pos hdue]
  · rw [if_neg fun h => hdue h.1, if_neg hdue, if_neg fun h => hdue h.1, if_neg hdue]

theorem collectExpired_served (delta : Nat) (timers : List Timer) (n : Nat)
    (hlive : ∀ t ∈ timers, t.deleted = false) (huniq : (timers.map Timer.uid).Nodup) :
    (∀ x ∈ (collectExpired delta timers n).2, ∃ t ∈ timers, x = (t.uid, t.times delta)) ∧
      ∀ t' ∈ (collectExpired delta timers n).1, ∃ t ∈ timers,
        Served delta n timers (collectExpired delta timers n).2 t t' := by
  induction timers generalizing n with
  | nil => simp [collectExpired]
  | cons t rest ih =>
      obtain ⟨hnot, huniq⟩ := List.nodup_cons.mp huniq
      have ih := fun n => ih n (fun u hu => hlive u (List.mem_cons_of_mem t hu)) huniq
      rw [collectExpired_cons (hlive t List.mem_cons_self)]
      have hnone : ∀ n, owed t.uid (collectExpired delta rest n).2 = 0 := fun n =>
        owed_none fun x hx heq => by
          obtain ⟨u, hu, rfl⟩ := (ih n).1 x hx
          exact hnot (heq ▸ List.mem_map_of_mem hu)
      have hother : ∀ u ∈ rest, u.uid ≠ t.uid := fun u hu heq =>
        hnot (heq ▸ List.mem_map_of_mem hu)
      split
      · rename_i hc
        refine ⟨fun x hx => ?_, fun t' ht' => ?_⟩
        · rcases List.mem_cons.mp hx with rfl | hx
          · exact ⟨t, List.mem_cons_self, rfl⟩
          · obtain ⟨u, hu, heq⟩ := (ih (n + 1)).1 x hx
            exact ⟨u, List.mem_cons_of_mem t hu, heq⟩
        · rcases List.mem_cons.mp ht' with rfl | ht'
          · refine ⟨t, List.mem_cons_self, rfl, rfl, .inl ⟨?_, rfl⟩⟩
            rw [owed, if_pos rfl, hnone, Nat.add_zero]
          · obtain ⟨u, hu, huid, hms, hserved⟩ := (ih (n + 1)).2 t' ht'
            refine ⟨u, List.mem_cons_of_mem t hu, huid, hms, ?_⟩
            rw [owed, if_neg (Ne.symm (hother u hu)), Nat.zero_add, dueCount_cons, if_pos hc.1]
            refine hserved.imp_right ?_
            rintro ⟨hzero, hone, hdue, hfull⟩
            exact ⟨hzero, hone, hdue, by omega⟩
      · rename_i hc
        refine ⟨fun x hx => ?_, fun t' ht' => ?_⟩
        · obtain ⟨u, hu, heq⟩ := (ih n).1 x hx
          exact ⟨u, List.mem_cons_of_mem t hu, heq⟩
        rcases List.mem_cons.mp ht' with rfl | ht'
        · refine ⟨t, List.mem_cons_self, rfl, rfl, ?_⟩
          by_cases hdue : 0 < t.times delta
          · refine .inr ⟨hnone n, if_pos hdue, hdue, ?_⟩
            rw [dueCount_cons, if_pos hdue]
            omega
          · exact .inl ⟨by rw [hnone, Nat.eq_zero_of_not_pos hdue], if_neg hdue⟩
        · obtain ⟨u, hu, huid, hms, hserved⟩ := (ih n).2 t' ht'
          refine ⟨u, List.mem_cons_of_mem t hu, huid, hms, hserved.imp_right ?_⟩
          rintro ⟨hzero, hone, hdue, hfull⟩
          rw [dueCount_cons]
          exact ⟨hzero, hone, hdue, by omega⟩

-- ---- phase B ----

-- A registration that an int can hold.
def Act.sized : Act → Prop
  | .timerRegister ms _ => ms.toNat ≤ intMax
  | _ => True

def Scripts.Sized (scripts : List Script) : Prop := ∀ s ∈ scripts, ∀ a ∈ s, a.sized

-- A timer that has just been registered.
structure Timer.Fresh (t : Timer) : Prop where
  sized : Sized t.intervalMs
  whole : t.remainingMs = t.intervalMs.toNat

-- Callbacks are made as `calls` allows, and all of them for a timer that is still there.
structure Makes (calls : List (Nat × Nat)) (c d : Context) : Prop where
  next : c.nextUid ≤ d.nextUid
  timers : ∀ t ∈ d.timerList, t ∈ c.timerList ∨ c.nextUid ≤ t.uid ∧ t.uid < d.nextUid ∧ t.Fresh
  most : ∀ uid, d.log.count (.timerFired uid) ≤ c.log.count (.timerFired uid) + owed uid calls
  all : ∀ t ∈ d.timerList, t.uid < c.nextUid →
    d.log.count (.timerFired t.uid) = c.log.count (.timerFired t.uid) + owed t.uid calls

theorem owed_append (uid : Nat) (l l' : List (Nat × Nat)) :
    owed uid (l ++ l') = owed uid l + owed uid l' := by
  induction l with
  | nil => exact (Nat.zero_add _).symm
  | cons x rest ih => rw [List.cons_append, owed, owed, ih, Nat.add_assoc]

theorem Makes.refl (c : Context) : Makes [] c c :=
  ⟨Nat.le_refl _, fun _ ht => .inl ht, fun _ => Nat.le_refl _, fun _ _ _ => rfl⟩

theorem Makes.trans {l l' : List (Nat × Nat)} {c d e : Context} (h : Makes l c d)
    (h' : Makes l' d e) : Makes (l ++ l') c e where
  next := Nat.le_trans h.next h'.next
  timers := by
    intro t ht
    rcases h'.timers t ht with hd | ⟨hle, hlt, hfresh⟩
    · refine (h.timers t hd).imp_right ?_
      rintro ⟨hle, hlt, hfresh⟩
      exact ⟨hle, Nat.lt_of_lt_of_le hlt h'.next, hfresh⟩
    · exact .inr ⟨Nat.le_trans h.next hle, hlt, hfresh⟩
  most := by
    intro uid
    have hfirst := h.most uid
    have hsecond := h'.most uid
    rw [owed_append]
    omega
  all := by
    intro t ht hlt
    have hsecond := h'.all t ht (Nat.lt_of_lt_of_le hlt h.next)
    have hd : t ∈ d.timerList := by
      rcases h'.timers t ht with hd | ⟨hle, -⟩
      · exact hd
      · have hnext := h.next
        omega
    rw [hsecond, h.all t hd hlt, owed_append, Nat.add_assoc]

-- An event that is no callback of a timer.
theorem Makes.event {c d : Context} (e : Event) (hlog : d.log = c.log ++ [e])
    (hfire : ∀ uid, e ≠ .timerFired uid) (hnext : c.nextUid ≤ d.nextUid)
    (htimers : ∀ t ∈ d.timerList, t ∈ c.timerList ∨ c.nextUid ≤ t.uid ∧ t.uid < d.nextUid ∧ t.Fresh) :
    Makes [] c d := by
  have hcount : ∀ uid, d.log.count (.timerFired uid) = c.log.count (.timerFired uid) := fun uid => by
    rw [hlog, List.count_append, List.count_singleton, if_neg (by simp [hfire uid]), Nat.add_zero]
  exact ⟨hnext, htimers, fun uid => (hcount uid).le, fun t _ _ => hcount t.uid⟩

theorem act_makes {a : Act} (ha : a.sized) (c : Context) : Makes [] c (a.run c) := by
  cases a with
  | ioRegister fd r w pick =>
      simp only [Act.run, Context.ioRegister]
      repeat' split
      all_goals first
        | exact .refl c
        | exact .event _ rfl (by simp) (Nat.le_succ _) fun t ht => .inl ht
  | ioUnregister addr =>
      simp only [Act.run, Context.ioUnregister]
      split
      · exact .refl c
      · exact .event _ rfl (by simp) (Nat.le_refl _) fun t ht => .inl ht
  | timerRegister ms pick =>
      simp only [Act.run, Context.timerRegister]
      split
      · exact .refl c
      rename_i hms
      split
      · exact .refl c
      refine .event _ rfl (by simp) (Nat.le_succ _) fun t ht => ?_
      rcases List.mem_cons.mp ht with rfl | ht
      · have hpos : 1 ≤ ms.toNat := Nat.pos_of_ne_zero fun h => hms (UInt32.toNat_inj.mp h)
        have hmax : ms.toNat ≤ intMax := by simpa only [Act.sized] using ha
        have hsized : Sized ms := ⟨hpos, hmax⟩
        refine .inr ⟨Nat.le_refl _, Nat.lt_succ_self _, hsized, ?_⟩
        dsimp only
        exact hsized.toInt
      · exact .inl ht
  | timerUnregister addr =>
      simp only [Act.run, Context.timerUnregister]
      split
      · exact .refl c
      · exact .event _ rfl (by simp) (Nat.le_refl _) fun t ht =>
          .inl (List.mem_of_mem_eraseP ht)
  | post ok =>
      simp only [Act.run, Context.post]
      split
      · exact .refl c
      · exact .event _ rfl (by simp) (Nat.le_succ _) fun t ht => .inl ht

theorem script_makes {s : Script} (hs : ∀ a ∈ s, a.sized) (c : Context) : Makes [] c (s.run c) := by
  unfold Script.run
  induction s generalizing c with
  | nil => exact .refl c
  | cons a rest ih =>
      exact (act_makes (hs a List.mem_cons_self) c).trans
        (ih (fun b hb => hs b (List.mem_cons_of_mem a hb)) (a.run c))

-- One callback of a timer and what its script does.
theorem fire_makes (uid : Nat) {s : Script} (hs : ∀ a ∈ s, a.sized) (c : Context) :
    Makes [(uid, 1)] c (s.run (c.emit (.timerFired uid))) := by
  have hcount : ∀ u, (c.log ++ [Event.timerFired uid]).count (.timerFired u) =
      c.log.count (.timerFired u) + owed u [(uid, 1)] := fun u => by
    rw [List.count_append, List.count_singleton, owed, owed, Nat.add_zero]
    simp
  have hemit : Makes [(uid, 1)] c (c.emit (.timerFired uid)) :=
    ⟨Nat.le_refl _, fun _ ht => .inl ht, fun u => (hcount u).le, fun t _ _ => hcount t.uid⟩
  have hall := hemit.trans (script_makes hs (c.emit (.timerFired uid)))
  rwa [List.append_nil] at hall

theorem Scripts.Sized.next {scripts : List Script} (h : Scripts.Sized scripts) :
    (∀ a ∈ (Script.next scripts).1, a.sized) ∧ Scripts.Sized (Script.next scripts).2 := by
  cases scripts with
  | nil => exact ⟨by simp [Script.next], by simp [Script.next, Scripts.Sized]⟩
  | cons s rest => exact ⟨h s List.mem_cons_self, fun s' hs' => h s' (List.mem_cons_of_mem s hs')⟩

theorem Makes.same {l l' : List (Nat × Nat)} {c d : Context} (h : Makes l c d)
    (heq : ∀ uid, owed uid l = owed uid l') : Makes l' c d where
  next := h.next
  timers := h.timers
  most := fun uid => heq uid ▸ h.most uid
  all := fun t ht hlt => heq t.uid ▸ h.all t ht hlt

theorem fireBurst_makes (uid times : Nat) {scripts : List Script} (hs : Scripts.Sized scripts)
    {c : Context} (h : Intact c) :
    Makes [(uid, times)] c (c.fireBurst uid times scripts).1 ∧
      Scripts.Sized (c.fireBurst uid times scripts).2 := by
  induction times generalizing scripts c with
  | zero => exact ⟨(Makes.refl c).same fun u => by simp [owed], hs⟩
  | succ times ih =>
      unfold Context.fireBurst
      split
      · rename_i hdel
        refine ⟨⟨Nat.le_refl _, fun _ ht => .inl ht, fun u => Nat.le_add_right _ _, ?_⟩, hs⟩
        intro t ht _
        have hne : uid ≠ t.uid := by
          rintro rfl
          simp only [Context.timerDeleted, Bool.not_eq_true', List.any_eq_false] at hdel
          exact hdel t ht (by simp [h.timerLive t ht])
        rw [owed, if_neg hne]
        rfl
      · rename_i hdel
        have hi := (callback_safe h (.timerFired uid) (Script.next scripts).1 (fun _ he => by cases he)
          (fun _ he => by cases he) rfl (h.timerDeleted (Bool.eq_false_iff.mpr hdel))).1
        obtain ⟨hmakes, hsized⟩ := ih hs.next.2 hi
        refine ⟨((fire_makes uid hs.next.1 c).trans hmakes).same fun u => ?_, hsized⟩
        by_cases hu : uid = u
        · simp [owed, hu, Nat.add_comm]
        · simp [owed, hu]

theorem fireExpired_makes (expired : List (Nat × Nat)) {scripts : List Script}
    (hs : Scripts.Sized scripts) {c : Context} (h : Intact c) :
    Makes expired c (c.fireExpired expired scripts) := by
  induction expired generalizing scripts c with
  | nil => exact .refl c
  | cons x rest ih =>
      obtain ⟨hmakes, hsized⟩ := fireBurst_makes x.1 x.2 hs h
      exact hmakes.trans (ih hsized (fireBurst_safe x.1 x.2 scripts h).1)

-- ---- one step of a run ----

def Tick.delta : Tick → Nat
  | .timers delta _ => delta
  | _ => 0

def Tick.sized : Tick → Prop
  | .timers _ scripts => Scripts.Sized scripts
  | .calls script => ∀ a ∈ script, a.sized
  | .freeDeath => True

-- The numbers that have not been given out have no history.
structure Known (m : Metered) : Prop where
  intact : Intact m.ctx
  sized : ∀ t ∈ m.ctx.timerList, Sized t.intervalMs
  unused : ∀ uid, m.ctx.nextUid ≤ uid → m.fires uid = 0 ∧ m.applied uid = 0

theorem known_start : Known Metered.start :=
  ⟨create_intact, by simp [Metered.start, create], fun _ _ => ⟨rfl, rfl⟩⟩

-- What a timer's books are after a step, and what they were before it; `rest` is what has been
-- counted and is still to be called.
inductive Booked (m m' : Metered) (delta : Nat) (rest : List (Nat × Nat)) (t' : Timer) : Prop where
  | fresh (hfresh : t'.Fresh) (hfires : m'.fires t'.uid + owed t'.uid rest = 0)
      (happlied : m'.applied t'.uid = 0)
  | kept (hold : t' ∈ m.ctx.timerList)
      (hfires : m'.fires t'.uid + owed t'.uid rest = m.fires t'.uid)
      (happlied : m'.applied t'.uid = m.applied t'.uid)
  | served (t : Timer) (ht : t ∈ m.ctx.timerList) (huid : t'.uid = t.uid)
      (hms : t'.intervalMs = t.intervalMs)
      (happlied : m'.applied t.uid = m.applied t.uid + delta)
      (hserved : m'.fires t.uid + owed t.uid rest = m.fires t.uid + t.times delta ∧
          t'.remainingMs = (t.caught delta).2 ∨
        m'.fires t.uid + owed t.uid rest = m.fires t.uid ∧ t'.remainingMs = 1 ∧
          0 < t.times delta ∧ maxExpiredPerTick < dueCount delta m.ctx.timerList)

theorem Known.booked {m : Metered} (h : Known m) {d : Context} {applied : Nat → Nat}
    (hm : Makes [] m.ctx d) (hi : Intact d)
    (happlied : ∀ uid, applied uid = m.applied uid) :
    Known ⟨d, applied⟩ ∧ (∀ delta, ∀ t' ∈ d.timerList, Booked m ⟨d, applied⟩ delta [] t') ∧
      ∀ uid, Metered.fires ⟨d, applied⟩ uid ≤ m.fires uid := by
  refine ⟨⟨hi, fun t ht => ?_, fun uid hle => ?_⟩, fun delta t' ht' => ?_, hm.most⟩
  · rcases hm.timers t ht with hold | ⟨-, -, hfresh⟩
    · exact h.sized t hold
    · exact hfresh.sized
  · obtain ⟨hfires, hzero⟩ := h.unused uid (Nat.le_trans hm.next hle)
    refine ⟨Nat.le_zero.mp ?_, (happlied uid).trans hzero⟩
    exact hfires ▸ hm.most uid
  · rcases hm.timers t' ht' with hold | ⟨hle, -, hfresh⟩
    · refine .kept hold (hm.all t' ht' ?_) (happlied t'.uid)
      exact h.intact.timer.below t'.ref (List.mem_append_left _ (List.mem_map_of_mem hold))
    · obtain ⟨hfires, hzero⟩ := h.unused t'.uid hle
      refine .fresh hfresh (Nat.le_zero.mp ?_) ((happlied t'.uid).trans hzero)
      exact hfires ▸ hm.most t'.uid

theorem Known.below {m : Metered} (h : Known m) {t : Timer} (ht : t ∈ m.ctx.timerList) :
    t.uid < m.ctx.nextUid :=
  h.intact.timer.below t.ref (List.mem_append_left _ (List.mem_map_of_mem ht))

theorem Known.uids {m : Metered} (h : Known m) : (m.ctx.timerList.map Timer.uid).Nodup := by
  have hall := h.intact.timer.uids
  rw [List.map_append, List.map_map] at hall
  exact (List.nodup_append.mp hall).1

theorem meter_live (delta : Nat) {timers : List Timer} (applied : Nat → Nat) {t : Timer}
    (ht : t ∈ timers) : meter delta timers applied t.uid = applied t.uid + delta := by
  have hlive : Timer.live t.uid timers = true :=
    List.any_eq_true.mpr ⟨t, ht, beq_self_eq_true t.uid⟩
  rw [meter, if_pos hlive]

theorem meter_other (delta : Nat) {timers : List Timer} (applied : Nat → Nat) {uid : Nat}
    (h : ∀ t ∈ timers, t.uid ≠ uid) : meter delta timers applied uid = applied uid := by
  rw [meter, if_neg, Nat.add_zero]
  simpa [Timer.live] using h

theorem Known.owed_le {m : Metered} (h : Known m) (delta uid : Nat) :
    owed uid (collectExpired delta m.ctx.timerList 0).2 = 0 ∨ ∃ t ∈ m.ctx.timerList, t.uid = uid ∧
      owed uid (collectExpired delta m.ctx.timerList 0).2 ≤ t.times delta := by
  obtain ⟨hexpired, hserved⟩ :=
    collectExpired_served delta m.ctx.timerList 0 h.intact.timerLive h.uids
  by_cases hmem : ∃ t ∈ m.ctx.timerList, t.uid = uid
  · obtain ⟨t, ht, rfl⟩ := hmem
    have hrefs := collectExpired_refs delta m.ctx.timerList 0
    obtain ⟨t', ht', heq⟩ := List.mem_map.mp (hrefs ▸ List.mem_map_of_mem
      (f := fun t : Timer => (t.ref, t.deleted)) ht)
    have huid : t'.uid = t.uid := congrArg (fun x => x.1.2) heq
    obtain ⟨u, hu, huid', -, hcases⟩ := hserved t' ht'
    obtain rfl : u = t := List.inj_on_of_nodup_map h.uids hu ht (huid'.symm.trans huid)
    refine .inr ⟨u, hu, rfl, ?_⟩
    rcases hcases with ⟨howed, -⟩ | ⟨howed, -⟩
    · exact howed.le
    · rw [howed]
      exact Nat.zero_le _
  · refine .inl (owed_none fun x hx heq => hmem ?_)
    obtain ⟨t, ht, rfl⟩ := hexpired x hx
    exact ⟨t, ht, heq⟩

-- run_timers, up to some callback of its second phase.
theorem Known.called {m : Metered} (h : Known m) {delta : Nat} {scripts : List Script}
    (hs : Scripts.Sized scripts) {calls rest : List (Nat × Nat)}
    (hsplit : ∀ uid, owed uid calls + owed uid rest =
      owed uid (collectExpired delta m.ctx.timerList 0).2) :
    let m' : Metered := ⟨{ m.ctx with timerList := (collectExpired delta m.ctx.timerList 0).1 }.fireExpired
      calls scripts, meter delta m.ctx.timerList m.applied⟩
    Known m' ∧ (∀ t' ∈ m'.ctx.timerList, Booked m m' delta rest t') ∧
      ∀ uid, m'.fires uid ≤ m.fires uid + owed uid (collectExpired delta m.ctx.timerList 0).2 := by
  intro m'
  obtain ⟨hexpired, hserved⟩ :=
    collectExpired_served delta m.ctx.timerList 0 h.intact.timerLive h.uids
  have hi := (h.intact.retimed (collectExpired_refs delta m.ctx.timerList 0)).1
  have hmakes := fireExpired_makes calls hs hi
  have hunused : ∀ uid, m.ctx.nextUid ≤ uid →
      (∀ t ∈ m.ctx.timerList, t.uid ≠ uid) ∧ owed uid calls + owed uid rest = 0 := by
    intro uid hle
    have hne : ∀ t ∈ m.ctx.timerList, t.uid ≠ uid := fun t ht heq => by
      have hlt := h.below ht
      omega
    refine ⟨hne, (hsplit uid).trans (owed_none fun x hx heq => ?_)⟩
    obtain ⟨t, ht, rfl⟩ := hexpired x hx
    exact hne t ht heq
  have hmost : ∀ uid, m'.fires uid ≤ m.fires uid + owed uid calls := hmakes.most
  have hnew : ∀ uid, m.ctx.nextUid ≤ uid → m'.fires uid + owed uid rest = 0 ∧ m'.applied uid = 0 := by
    intro uid hle
    obtain ⟨hne, hzero⟩ := hunused uid hle
    obtain ⟨hfires, happlied⟩ := h.unused uid hle
    have hle' := hmost uid
    refine ⟨by omega, ?_⟩
    exact (meter_other delta m.applied hne).trans happlied
  refine ⟨⟨(fireExpired_safe calls scripts hi).1, fun t ht => ?_, fun uid hle => ?_⟩, fun t' ht' => ?_,
    fun uid => ?_⟩
  · rcases hmakes.timers t ht with hold | ⟨-, -, hfresh⟩
    · obtain ⟨u, hu, -, hms, -⟩ := hserved t hold
      exact hms ▸ h.sized u hu
    · exact hfresh.sized
  · obtain ⟨hfires, happlied⟩ := hnew uid (Nat.le_trans hmakes.next hle)
    exact ⟨Nat.eq_zero_of_add_eq_zero_right hfires, happlied⟩
  · rcases hmakes.timers t' ht' with hold | ⟨hle, -, hfresh⟩
    · obtain ⟨t, ht, huid, hms, hcases⟩ := hserved t' hold
      have hall : m'.fires t'.uid = m.fires t'.uid + owed t'.uid calls :=
        hmakes.all t' ht' (huid ▸ h.below ht)
      have hsum := hsplit t.uid
      rw [huid] at hall
      refine .served t ht huid hms (meter_live delta m.applied ht) ?_
      rcases hcases with ⟨howed, hleft⟩ | ⟨howed, hone, hdue, hfull⟩
      · exact .inl ⟨by omega, hleft⟩
      · rw [Nat.zero_add] at hfull
        exact .inr ⟨by omega, hone, hdue, hfull⟩
    · exact .fresh hfresh (hnew t'.uid hle).1 (hnew t'.uid hle).2
  · have hle := hmost uid
    have hsum := hsplit uid
    omega

theorem Known.freed {m : Metered} (h : Known m) :
    Known (Tick.freeDeath.run m) ∧ (∀ t' ∈ (Tick.freeDeath.run m).ctx.timerList,
      Booked m (Tick.freeDeath.run m) 0 [] t') ∧
      ∀ uid, (Tick.freeDeath.run m).fires uid = m.fires uid := by
  have hcount : ∀ uid, (Tick.freeDeath.run m).fires uid = m.fires uid := fun uid => by
    have hnone : ∀ l : List Event, (∀ e ∈ l, ∀ u, e ≠ .timerFired u) →
        l.count (.timerFired uid) = 0 := fun l hl =>
      List.count_eq_zero.mpr fun hm => hl _ hm uid rfl
    simp only [Tick.run, Metered.fires, Context.runFreeDeath, List.append_assoc]
    rw [List.count_append, hnone (_ ++ _), Nat.add_zero]
    intro e he u
    rcases List.mem_append.mp he with he | he <;> obtain ⟨x, -, rfl⟩ := List.mem_map.mp he <;>
      exact Event.noConfusion
  refine ⟨⟨h.intact.runFreeDeath, h.sized, fun uid hle => ?_⟩, fun t' ht' => ?_, hcount⟩
  · exact ⟨(hcount uid).trans (h.unused uid hle).1, (h.unused uid hle).2⟩
  · exact .kept ht' (hcount t'.uid) rfl

-- ---- the run ----

theorem runTimers_eq (delta : Nat) (scripts : List Script) (c : Context) (h : 0 < delta) :
    c.runTimers true delta scripts =
      { c with timerList := (collectExpired delta c.timerList 0).1 }.fireExpired
        (collectExpired delta c.timerList 0).2 scripts := by
  rw [Context.runTimers, if_neg (by simpa using Nat.ne_of_gt h)]

-- One step: the books of every timer that is there after it, and who has been called back.
theorem Known.step {m : Metered} (h : Known m) {s : Tick} (hs : s.sized) :
    Known (s.run m) ∧ (∀ t' ∈ (s.run m).ctx.timerList, Booked m (s.run m) s.delta [] t') ∧
      ∀ uid, (s.run m).fires uid ≤ m.fires uid ∨ ∃ t ∈ m.ctx.timerList, t.uid = uid ∧
        (s.run m).applied uid = m.applied uid + s.delta ∧
          (s.run m).fires uid ≤ m.fires uid + t.times s.delta := by
  cases s with
  | calls script =>
      obtain ⟨hknown, hbooked, hfires⟩ := h.booked (script_makes hs m.ctx) (h.intact.script script)
        fun _ => rfl
      exact ⟨hknown, hbooked 0, fun uid => .inl (hfires uid)⟩
  | freeDeath =>
      obtain ⟨hknown, hbooked, hfires⟩ := h.freed
      exact ⟨hknown, hbooked, fun uid => .inl (hfires uid).le⟩
  | timers delta scripts =>
      rcases Nat.eq_zero_or_pos delta with rfl | hpos
      · have hrun : (Tick.timers 0 scripts).run m = ⟨m.ctx, meter 0 m.ctx.timerList m.applied⟩ := rfl
        have hmeter : ∀ uid, meter 0 m.ctx.timerList m.applied uid = m.applied uid := fun uid => by
          simp [meter]
        obtain ⟨hknown, hbooked, hfires⟩ := h.booked (Makes.refl m.ctx) h.intact hmeter
        rw [hrun]
        exact ⟨hknown, hbooked 0, fun uid => .inl (hfires uid)⟩
      · have hrun : (Tick.timers delta scripts).run m = ⟨_, _⟩ :=
          congrArg (Metered.mk · _) (runTimers_eq delta scripts m.ctx hpos)
        obtain ⟨hknown, hbooked, hfires⟩ := @Known.called m h delta _ hs _ [] fun _ => rfl
        rw [hrun]
        refine ⟨hknown, hbooked, fun uid => ?_⟩
        have hle := hfires uid
        rcases h.owed_le delta uid with hzero | ⟨t, ht, huid, htimes⟩
        · rw [hzero] at hle
          exact .inl hle
        · refine .inr ⟨t, ht, huid, ?_, hle.trans (Nat.add_le_add_left htimes _)⟩
          exact huid ▸ meter_live delta m.applied ht

end Sevent.Loop
