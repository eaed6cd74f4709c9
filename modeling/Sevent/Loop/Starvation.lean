import Sevent.Loop.Ticks

-- More due timers than `expired` has room for: who is called back when nobody joins or leaves.
namespace Sevent.Loop

def Act.leavesTimers : Act → Bool
  | .timerRegister _ _ | .timerUnregister _ => false
  | _ => true

-- One call of run_timers: its delta, and what the callbacks do.
abbrev Call := Nat × List Script

def runCalls (calls : List Call) (c : Context) : Context :=
  calls.foldl (fun c x => c.runTimers true x.1 x.2) c

def Timer.due (delta : Nat) (t : Timer) : Prop := toInt (t.remainingMs - toInt delta) ≤ 0

-- Every timer is due in every call.
def AllDue : List Call → Context → Prop
  | [], _ => True
  | x :: rest, c => 0 < x.1 ∧ (∀ t ∈ c.timerList, t.due x.1) ∧ AllDue rest (c.runTimers true x.1 x.2)

def LeaveTimers (calls : List Call) : Prop :=
  ∀ x ∈ calls, ∀ s ∈ x.2, ∀ a ∈ s, a.leavesTimers = true

def Context.fires (c : Context) (uid : Nat) : Nat := c.log.count (.timerFired uid)

theorem Timer.due.times {delta : Nat} {t : Timer} (h : t.due delta) : 0 < t.times delta := by
  have hstep : ∀ fuel, 0 < (catchUp t.intervalMs (fuel + 1) (toInt (t.remainingMs - toInt delta))).1 := by
    intro fuel
    have hle : toInt (t.remainingMs - toInt delta) ≤ 0 := h
    rw [catchUp, if_pos hle]
    exact Nat.succ_pos _
  exact hstep 99

-- The first ones of the list get what room there is.
theorem collectExpired_due {delta : Nat} (timers : List Timer) (n : Nat)
    (hlive : ∀ t ∈ timers, t.deleted = false) (hdue : ∀ t ∈ timers, t.due delta) :
    (collectExpired delta timers n).2 =
      (timers.take (maxExpiredPerTick - n)).map fun t => (t.uid, t.times delta) := by
  induction timers generalizing n with
  | nil => simp [collectExpired]
  | cons t rest ih =>
      have ih := fun n => ih n (fun u hu => hlive u (List.mem_cons_of_mem t hu))
        fun u hu => hdue u (List.mem_cons_of_mem t hu)
      have htimes := (hdue t List.mem_cons_self).times
      rw [collectExpired_cons (hlive t List.mem_cons_self)]
      by_cases hroom : n < maxExpiredPerTick
      · obtain ⟨k, hk⟩ : ∃ k, maxExpiredPerTick - n = k + 1 :=
          Nat.exists_eq_add_one.mpr (Nat.sub_pos_of_lt hroom)
        have hk' : maxExpiredPerTick - (n + 1) = k := by omega
        rw [if_pos ⟨htimes, hroom⟩, hk, List.take_succ_cons, List.map_cons, ih, hk']
      · have hfull : maxExpiredPerTick - n = 0 := Nat.sub_eq_zero_of_le (Nat.not_lt.mp hroom)
        rw [if_neg fun h => hroom h.2, hfull, ih, hfull]
        rfl

theorem owed_pos {uid : Nat} {l : List (Nat × Nat)} {x : Nat × Nat} (hx : x ∈ l) (huid : x.1 = uid)
    (hpos : 0 < x.2) : 0 < owed uid l := by
  induction l with
  | nil => cases hx
  | cons y rest ih =>
      rw [owed]
      rcases List.mem_cons.mp hx with rfl | hx
      · rw [if_pos huid]
        omega
      · have := ih hx
        omega

-- ---- callbacks that leave the timers alone ----

theorem act_timers {a : Act} (ha : a.leavesTimers = true) (c : Context) :
    (a.run c).timerList = c.timerList := by
  cases a with
  | ioRegister fd r w pick =>
      simp only [Act.run, Context.ioRegister]
      repeat' split
      all_goals rfl
  | ioUnregister addr =>
      simp only [Act.run, Context.ioUnregister]
      split <;> rfl
  | timerRegister ms pick => cases ha
  | timerUnregister addr => cases ha
  | post ok =>
      simp only [Act.run, Context.post]
      split <;> rfl

theorem script_timers {s : Script} (hs : ∀ a ∈ s, a.leavesTimers = true) (c : Context) :
    (s.run c).timerList = c.timerList := by
  unfold Script.run
  induction s generalizing c with
  | nil => rfl
  | cons a rest ih =>
      exact (ih (fun b hb => hs b (List.mem_cons_of_mem a hb)) (a.run c)).trans
        (act_timers (hs a List.mem_cons_self) c)

def ScriptsLeave (scripts : List Script) : Prop := ∀ s ∈ scripts, ∀ a ∈ s, a.leavesTimers = true

theorem ScriptsLeave.next {scripts : List Script} (h : ScriptsLeave scripts) :
    (∀ a ∈ (Script.next scripts).1, a.leavesTimers = true) ∧
      ScriptsLeave (Script.next scripts).2 := by
  cases scripts with
  | nil => exact ⟨by simp [Script.next], by simp [Script.next, ScriptsLeave]⟩
  | cons s rest => exact ⟨h s List.mem_cons_self, fun s' hs' => h s' (List.mem_cons_of_mem s hs')⟩

theorem ScriptsLeave.sized {scripts : List Script} (h : ScriptsLeave scripts) :
    Scripts.Sized scripts := by
  intro s hs a ha
  have hleave := h s hs a ha
  cases a with
  | timerRegister ms pick => cases hleave
  | _ => trivial

theorem fireBurst_timers (uid times : Nat) {scripts : List Script} (hs : ScriptsLeave scripts)
    (c : Context) : (c.fireBurst uid times scripts).1.timerList = c.timerList ∧
      ScriptsLeave (c.fireBurst uid times scripts).2 := by
  induction times generalizing scripts c with
  | zero => exact ⟨rfl, hs⟩
  | succ times ih =>
      unfold Context.fireBurst
      split
      · exact ⟨rfl, hs⟩
      · obtain ⟨hsame, hleave⟩ := ih hs.next.2 ((Script.next scripts).1.run (c.emit (.timerFired uid)))
        exact ⟨hsame.trans (script_timers hs.next.1 _), hleave⟩

theorem fireExpired_timers (expired : List (Nat × Nat)) {scripts : List Script}
    (hs : ScriptsLeave scripts) (c : Context) :
    (c.fireExpired expired scripts).timerList = c.timerList := by
  induction expired generalizing scripts c with
  | nil => rfl
  | cons x rest ih =>
      obtain ⟨hsame, hleave⟩ := fireBurst_timers x.1 x.2 hs c
      exact (ih hleave _).trans hsame

-- ---- one call ----

-- The order of the list stays, and only the front of it is called back.
structure Fronted (c d : Context) : Prop where
  intact : Intact d
  order : d.timerList.map Timer.uid = c.timerList.map Timer.uid
  front : ∀ uid ∈ (c.timerList.map Timer.uid).take maxExpiredPerTick, c.fires uid < d.fires uid
  others : ∀ uid ∈ (c.timerList.map Timer.uid).drop maxExpiredPerTick, d.fires uid = c.fires uid

theorem Intact.timerUids {c : Context} (h : Intact c) : (c.timerList.map Timer.uid).Nodup := by
  have hall := h.timer.uids
  rw [List.map_append, List.map_map] at hall
  exact (List.nodup_append.mp hall).1

theorem collectExpired_uids (delta : Nat) (timers : List Timer) (n : Nat) :
    (collectExpired delta timers n).1.map Timer.uid = timers.map Timer.uid := by
  have hrefs := congrArg (List.map fun x : (Nat × Nat) × Bool => x.1.2)
    (collectExpired_refs delta timers n)
  rwa [List.map_map, List.map_map] at hrefs

theorem runTimers_fronted {c : Context} (h : Intact c) {delta : Nat} (hpos : 0 < delta)
    {scripts : List Script} (hs : ScriptsLeave scripts) (hdue : ∀ t ∈ c.timerList, t.due delta) :
    Fronted c (c.runTimers true delta scripts) := by
  have hexpired := collectExpired_due c.timerList 0 h.timerLive hdue
  have hi := (h.retimed (collectExpired_refs delta c.timerList 0)).1
  have hmakes := fireExpired_makes (collectExpired delta c.timerList 0).2 hs.sized hi
  have hsame := fireExpired_timers (collectExpired delta c.timerList 0).2 hs
    { c with timerList := (collectExpired delta c.timerList 0).1 }
  have hsafe := (fireExpired_safe (collectExpired delta c.timerList 0).2 scripts hi).1
  rw [runTimers_eq delta scripts c hpos]
  have huids := (congrArg (List.map Timer.uid) hsame).trans
    (collectExpired_uids delta c.timerList 0)
  refine ⟨hsafe, huids, fun uid hmem => ?_, fun uid hmem => ?_⟩
  · -- its entry is in `expired`, and it is still there when the call ends
    rw [← List.map_take] at hmem
    obtain ⟨t, ht, rfl⟩ := List.mem_map.mp hmem
    have htake := List.mem_of_mem_take ht
    have howed : 0 < owed t.uid (collectExpired delta c.timerList 0).2 := by
      rw [hexpired]
      exact owed_pos (List.mem_map_of_mem ht) rfl (hdue t htake).times
    obtain ⟨t', ht', huid⟩ := List.mem_map.mp (huids ▸ List.mem_map_of_mem (f := Timer.uid) htake)
    have hall := hmakes.all t' ht' (by
      rw [huid]
      exact h.timer.below t.ref (List.mem_append_left _ (List.mem_map_of_mem htake)))
    rw [huid] at hall
    rw [Context.fires, Context.fires, hall]
    exact Nat.lt_add_of_pos_right howed
  · have hnone : owed uid (collectExpired delta c.timerList 0).2 = 0 := by
      refine owed_none fun x hx heq => ?_
      rw [hexpired] at hx
      obtain ⟨t, ht, rfl⟩ := List.mem_map.mp hx
      have htake : uid ∈ (c.timerList.map Timer.uid).take maxExpiredPerTick := by
        rw [← List.map_take, ← heq]
        exact List.mem_map_of_mem ht
      exact List.disjoint_take_drop h.timerUids (le_refl maxExpiredPerTick) htake hmem
    obtain ⟨t', ht', huid⟩ := List.mem_map.mp (huids ▸ List.mem_of_mem_drop hmem)
    obtain ⟨t, ht, huid'⟩ := List.mem_map.mp (List.mem_of_mem_drop hmem)
    have hall := hmakes.all t' ht' (by
      rw [huid, ← huid']
      exact h.timer.below t.ref (List.mem_append_left _ (List.mem_map_of_mem ht)))
    rw [huid, hnone, Nat.add_zero] at hall
    exact hall

-- ---- consecutive calls ----

theorem runCalls_others {calls : List Call} {c : Context} (h : Intact c) (hs : LeaveTimers calls)
    (hdue : AllDue calls c) :
    ∀ uid ∈ (c.timerList.map Timer.uid).drop maxExpiredPerTick,
      (runCalls calls c).fires uid = c.fires uid := by
  induction calls generalizing c with
  | nil => exact fun _ _ => rfl
  | cons x rest ih =>
      obtain ⟨hpos, hall, hrest⟩ := hdue
      have hfront := runTimers_fronted h hpos (hs x List.mem_cons_self) hall
      intro uid hmem
      have hnext := ih hfront.intact (fun y hy => hs y (List.mem_cons_of_mem x hy)) hrest uid
        (hfront.order ▸ hmem)
      exact hnext.trans (hfront.others uid hmem)

-- How many calls n timers are given: n / 32, rounded up.
def callsFor (n : Nat) : Nat := (n + (maxExpiredPerTick - 1)) / maxExpiredPerTick

theorem none_starved_iff {c : Context} (h : Intact c) (calls : List Call)
    (hlen : calls.length = callsFor c.timerList.length) (hs : LeaveTimers calls)
    (hdue : AllDue calls c) :
    (∀ t ∈ c.timerList, c.fires t.uid < (runCalls calls c).fires t.uid) ↔
      c.timerList.length ≤ maxExpiredPerTick := by
  constructor
  · intro hserved
    by_contra hlt
    have hmore : maxExpiredPerTick < c.timerList.length := Nat.not_le.mp hlt
    obtain ⟨t, rest, hdrop⟩ : ∃ t rest, c.timerList.drop maxExpiredPerTick = t :: rest :=
      List.exists_cons_of_length_pos (by rw [List.length_drop]; omega)
    have ht : t ∈ c.timerList := List.mem_of_mem_drop (hdrop ▸ List.mem_cons_self)
    have hother := runCalls_others h hs hdue t.uid (by
      rw [← List.map_drop, hdrop]
      exact List.mem_cons_self)
    exact absurd (hserved t ht) (by rw [hother]; exact Nat.lt_irrefl _)
  · intro hle t ht
    have hpos : 0 < c.timerList.length := List.length_pos_of_mem ht
    have hone : callsFor c.timerList.length = 1 := by
      unfold callsFor maxExpiredPerTick at *
      omega
    obtain ⟨x, rfl⟩ := List.length_eq_one_iff.mp (hlen.trans hone)
    obtain ⟨hdelta, hall, -⟩ := hdue
    have hfront := runTimers_fronted h hdelta (hs x List.mem_cons_self) hall
    refine hfront.front t.uid ?_
    rw [List.take_of_length_le (by rwa [List.length_map])]
    exact List.mem_map_of_mem ht

def register (n : Nat) : Script := (List.range n).map fun i => .timerRegister 1 (some (i + 1))

def crowd (n : Nat) : Context := runSteps [.calls (register n)] create

theorem none_starved_pair :
    (∀ t ∈ (crowd 2).timerList, (crowd 2).fires t.uid < (runCalls [(1, [])] (crowd 2)).fires t.uid) ↔
      (crowd 2).timerList.length ≤ maxExpiredPerTick := by
  have hintact : Intact (crowd 2) := runSteps_intact _ create_intact
  have hdue : AllDue [(1, [])] (crowd 2) := by
    refine ⟨by decide, ?_, trivial⟩
    unfold Timer.due
    decide
  have hleave : LeaveTimers [(1, [])] := by
    rintro x hx s hs
    rw [List.mem_singleton.mp hx] at hs
    exact absurd hs (List.not_mem_nil)
  exact none_starved_iff hintact [(1, [])] (by decide) hleave hdue

-- The one registered first is the last of the list.
theorem thirty_third_starves :
    (crowd 33).timerList.length = 33 ∧ AllDue [(1, []), (1, [])] (crowd 33) ∧
      (runCalls [(1, []), (1, [])] (crowd 33)).fires 0 = 0 := by
  refine ⟨by decide +kernel, ⟨by decide, ?_, by decide, ?_, trivial⟩, by decide +kernel⟩
  all_goals
    unfold Timer.due
    decide +kernel

end Sevent.Loop
