import Sevent.Loop.Ticks

-- The arithmetic of remaining_ms, and the account of every timer: its fires and what remains
-- pay for what has been subtracted from it.
namespace Sevent.Loop

-- ---- the arithmetic ----

-- The subtraction and every addition of phase A stay inside an int.
def Tick.Exact (s : Tick) (m : Metered) : Prop :=
  match s with
  | .timers delta _ => 0 < delta → ∀ t ∈ m.ctx.timerList, InInt (t.remainingMs - delta) ∧
      catchUpFits t.intervalMs maxFirePerTimer (t.remainingMs - delta)
  | _ => True

-- No timer becomes due before the select has timed out.
def Prompt (c : Context) : Prop :=
  ∀ t ∈ c.timerList, ∀ delta, 0 < delta → delta ≤ intMax → 0 < t.times delta →
    c.runBuildFdset.timeoutMs ≤ delta

-- Whoever is called back has had its interval subtracted.
def Tick.NotEarly (s : Tick) (m : Metered) : Prop :=
  ∀ uid, m.fires uid < (s.run m).fires uid →
    ∃ t ∈ m.ctx.timerList, t.uid = uid ∧ t.intervalMs.toNat ≤ (s.run m).applied uid

def Tick.Sound (s : Tick) (m : Metered) : Prop := s.Exact m ∧ Prompt m.ctx ∧ s.NotEarly m

-- Every interval fits in an int, and no timer is so late that the delta does not fit any more.
def Tick.Manageable (s : Tick) (m : Metered) : Prop :=
  s.sized ∧ ∀ t ∈ m.ctx.timerList, (s.delta : Int) ≤ t.remainingMs + 2147483648

-- The fires of a timer and the one it is counting down to are paid for.
def Paid (m : Metered) (rest : List (Nat × Nat)) (t : Timer) : Prop :=
  ((m.fires t.uid + owed t.uid rest + 1 : Nat) : Int) * t.intervalMs.toNat ≤
      m.applied t.uid + t.remainingMs ∧
    t.remainingMs ≤ t.intervalMs.toNat ∧ -2147483648 ≤ t.remainingMs

structure Solvent (m : Metered) : Prop where
  known : Known m
  paid : ∀ t ∈ m.ctx.timerList, Paid m [] t

theorem Timer.caught_eq {t : Timer} (hms : Sized t.intervalMs) {delta : Nat}
    (hdelta : delta ≤ intMax) (hfits : InInt (t.remainingMs - delta)) :
    t.caught delta = catchUp t.intervalMs maxFirePerTimer (t.remainingMs - delta) ∧
      Caught t.intervalMs maxFirePerTimer (t.remainingMs - delta) := by
  have hd : toInt delta = delta := toInt_of_small (Int.natCast_nonneg _) (Int.ofNat_le.mpr hdelta)
  rw [Timer.caught, hd, toInt_inInt hfits]
  exact ⟨rfl, catchUp_caught hms _ hfits⟩

theorem Paid.inInt {m : Metered} {rest : List (Nat × Nat)} {t : Timer} (h : Paid m rest t)
    (hms : Sized t.intervalMs) {delta : Nat} (hlate : (delta : Int) ≤ t.remainingMs + 2147483648) :
    InInt (t.remainingMs - delta) := by
  obtain ⟨-, hle, -⟩ := h
  have hmax := hms.2
  unfold intMax at hmax
  exact ⟨by omega, by omega⟩

theorem Timer.Fresh.paid {m : Metered} {rest : List (Nat × Nat)} {t : Timer} (h : t.Fresh)
    (hfires : m.fires t.uid + owed t.uid rest = 0) (happlied : m.applied t.uid = 0) :
    Paid m rest t := by
  have hone := h.sized.1
  rw [Paid, hfires, happlied, h.whole]
  exact ⟨by simp, le_rfl, by omega⟩

-- What the catch-up loop adds is what it counts.
theorem Paid.served {m m' : Metered} {t t' : Timer} {delta : Nat} (h : Paid m [] t)
    (hms : Sized t.intervalMs) (hdelta : delta ≤ intMax)
    (hlate : (delta : Int) ≤ t.remainingMs + 2147483648) (huid : t'.uid = t.uid)
    (hms' : t'.intervalMs = t.intervalMs) (happlied : m'.applied t.uid = m.applied t.uid + delta)
    {rest : List (Nat × Nat)}
    (hserved : m'.fires t.uid + owed t.uid rest = m.fires t.uid + t.times delta ∧
        t'.remainingMs = (t.caught delta).2 ∨
      m'.fires t.uid + owed t.uid rest = m.fires t.uid ∧ t'.remainingMs = 1 ∧ 0 < t.times delta) :
    Paid m' rest t' := by
  have hfits := h.inInt hms hlate
  obtain ⟨heq, hcaught⟩ := Timer.caught_eq hms hdelta hfits
  obtain ⟨hpaid, hle, hlo⟩ := h
  obtain ⟨hflo, hfhi⟩ := hfits
  have hone := hms.1
  have hleft := hcaught.left
  have hlast := hcaught.last
  rw [← heq] at hleft hlast
  simp only [owed, Nat.add_zero] at hpaid
  rw [Paid, huid, hms', happlied]
  rcases hserved with ⟨hfires, hrem⟩ | ⟨hfires, hrem, hdue⟩
  · rw [hfires, hrem]
    have hcount : (t.caught delta).1 = t.times delta := rfl
    rw [hcount] at hleft hlast
    refine ⟨?_, ?_, ?_⟩
    · rw [hleft]
      push_cast at hpaid ⊢
      linarith only [hpaid]
    · rcases Nat.eq_zero_or_pos (t.times delta) with hzero | hpos
      · rw [hzero] at hleft
        simp only [Nat.cast_zero, zero_mul, add_zero] at hleft
        omega
      · exact hlast hpos
    · have hnonneg : (0 : Int) ≤ t.times delta * t.intervalMs.toNat := by positivity
      omega
  · rw [hfires, hrem]
    refine ⟨?_, by omega, by decide⟩
    have hneg : t.remainingMs - delta ≤ 0 := by
      by_contra hpos
      have hidle := hcaught.idle (Int.not_le.mp hpos)
      rw [← heq] at hidle
      exact absurd hidle (Nat.ne_of_gt hdue)
    push_cast at hpaid ⊢
    linarith only [hpaid, hneg]

theorem Solvent.step {m : Metered} (h : Solvent m) {s : Tick} (hs : s.Manageable m)
    (hdelta : s.delta ≤ intMax) : Solvent (s.run m) := by
  obtain ⟨hknown, hbooked, -⟩ := h.known.step hs.1
  refine ⟨hknown, fun t' ht' => ?_⟩
  rcases hbooked t' ht' with ⟨hfresh, hfires, happlied⟩ | ⟨hold, hfires, happlied⟩ |
    ⟨t, ht, huid, hms, happlied, hserved⟩
  · exact hfresh.paid hfires happlied
  · have hpaid := h.paid t' hold
    rw [Paid] at hpaid ⊢
    rw [hfires, happlied]
    simpa only [owed, Nat.add_zero] using hpaid
  · refine (h.paid t ht).served (h.known.sized t ht) hdelta (hs.2 t ht) huid hms happlied ?_
    exact hserved.imp_right fun hlate => ⟨hlate.1, hlate.2.1, hlate.2.2.1⟩

theorem Paid.due {m : Metered} {rest : List (Nat × Nat)} {t : Timer} (h : Paid m rest t)
    (hms : Sized t.intervalMs) {delta : Nat} (hdelta : delta ≤ intMax)
    (hlate : (delta : Int) ≤ t.remainingMs + 2147483648) (hdue : 0 < t.times delta) :
    t.remainingMs ≤ delta := by
  obtain ⟨heq, hcaught⟩ := Timer.caught_eq hms hdelta (h.inInt hms hlate)
  by_contra hlt
  have hidle := hcaught.idle (by omega)
  rw [← heq] at hidle
  exact absurd hidle (Nat.ne_of_gt hdue)

def lateTimer : List Tick := [.calls [.timerRegister 10 (some 1)], .timers 4 [], .timers 25 []]

-- What a set of timers and deltas has to be like: no call has more than 32 timers due, or one
-- of them 100 times.
def Tick.Gentle (s : Tick) (m : Metered) : Prop :=
  s.sized ∧ dueCount s.delta m.ctx.timerList ≤ maxExpiredPerTick ∧
    ∀ t ∈ m.ctx.timerList, t.times s.delta < maxFirePerTimer

-- `rest` is what the current call has counted and not yet called.
def Balanced (m : Metered) (rest : List (Nat × Nat)) (t : Timer) : Prop :=
  (m.applied t.uid : Int) = ((m.fires t.uid + owed t.uid rest : Nat) : Int) * t.intervalMs.toNat +
      (t.intervalMs.toNat - t.remainingMs) ∧
    0 < t.remainingMs ∧ t.remainingMs ≤ t.intervalMs.toNat

structure Settled (m : Metered) : Prop where
  known : Known m
  balanced : ∀ t ∈ m.ctx.timerList, Balanced m [] t

theorem Booked.balanced {m m' : Metered} {delta : Nat} {rest : List (Nat × Nat)} {t' : Timer}
    (hb : Booked m m' delta rest t') (h : Settled m) (hdelta : delta ≤ intMax)
    (hroom : dueCount delta m.ctx.timerList ≤ maxExpiredPerTick)
    (htimes : ∀ t ∈ m.ctx.timerList, t.times delta < maxFirePerTimer) : Balanced m' rest t' := by
  rcases hb with ⟨hfresh, hfires, happlied⟩ | ⟨hold, hfires, happlied⟩ |
    ⟨t, ht, huid, hms, happlied, hserved⟩
  · have hone := hfresh.sized.1
    rw [Balanced, hfires, happlied, hfresh.whole]
    exact ⟨by simp, by omega, le_rfl⟩
  · have hbalanced := h.balanced t' hold
    rw [Balanced] at hbalanced ⊢
    rw [hfires, happlied]
    simpa only [owed, Nat.add_zero] using hbalanced
  · obtain ⟨hbalance, hpos, hle⟩ := h.balanced t ht
    have hsized := h.known.sized t ht
    have hms' := hsized.2
    have hlimit := hdelta
    unfold intMax at hlimit hms'
    have hfits : InInt (t.remainingMs - delta) := ⟨by omega, by omega⟩
    obtain ⟨heq, hcaught⟩ := Timer.caught_eq hsized hdelta hfits
    have hleft := hcaught.left
    have hlast := hcaught.last
    have hdone := hcaught.done
    rw [← heq] at hleft hlast hdone
    have hcount : (t.caught delta).1 = t.times delta := rfl
    rw [hcount] at hleft hlast hdone
    rcases hserved with ⟨hfires, hrem⟩ | ⟨-, -, -, hfull⟩
    · simp only [owed, Nat.add_zero] at hbalance
      rw [Balanced, huid, hms, happlied, hfires, hrem]
      refine ⟨?_, hdone (htimes t ht), ?_⟩
      · rw [hleft]
        push_cast at hbalance ⊢
        linarith only [hbalance]
      · rcases Nat.eq_zero_or_pos (t.times delta) with hzero | hpos'
        · rw [hzero] at hleft
          simp only [Nat.cast_zero, zero_mul, add_zero] at hleft
          omega
        · exact hlast hpos'
    · exact absurd hfull (Nat.not_lt.mpr hroom)

theorem Settled.step {m : Metered} (h : Settled m) {s : Tick} (hs : s.Gentle m)
    (hdelta : s.delta ≤ intMax) : Settled (s.run m) := by
  obtain ⟨hsized, hroom, htimes⟩ := hs
  obtain ⟨hknown, hbooked, -⟩ := h.known.step hsized
  exact ⟨hknown, fun t' ht' => (hbooked t' ht').balanced h hdelta hroom htimes⟩

theorem runTicks_settled (steps : List Tick) (hdelta : ∀ s ∈ steps, s.delta ≤ intMax) {m : Metered}
    (h : Settled m) (hgentle : eachTick Tick.Gentle steps m) : Settled (runTicks steps m) := by
  induction steps generalizing m with
  | nil => exact h
  | cons s rest ih =>
      exact ih (fun s' hs' => hdelta s' (List.mem_cons_of_mem s hs'))
        (h.step hgentle.1 (hdelta s List.mem_cons_self)) hgentle.2

-- A call of run_timers between two callbacks: `k` of the `times` of the entry for `uid` are made.
def Metered.during (m : Metered) (delta : Nat) (scripts : List Script) (calls : List (Nat × Nat)) :
    Metered :=
  ⟨{ m.ctx with timerList := (collectExpired delta m.ctx.timerList 0).1 }.fireExpired calls scripts,
    meter delta m.ctx.timerList m.applied⟩

-- At every moment: after any run, and between any two callbacks of a further call.
theorem ticks_conserved (steps : List Tick) (hgentle : eachTick Tick.Gentle steps .start)
    (hdelta : ∀ s ∈ steps, s.delta ≤ intMax) :
    (∀ t ∈ (runTicks steps .start).ctx.timerList, Balanced (runTicks steps .start) [] t) ∧
      ∀ delta scripts, (Tick.timers delta scripts).Gentle (runTicks steps .start) → delta ≤ intMax →
        ∀ done uid times k rest,
          (collectExpired delta (runTicks steps .start).ctx.timerList 0).2 =
            done ++ (uid, times) :: rest → k ≤ times →
          ∀ t ∈ ((runTicks steps .start).during delta scripts (done ++ [(uid, k)])).ctx.timerList,
            Balanced ((runTicks steps .start).during delta scripts (done ++ [(uid, k)]))
              ((uid, times - k) :: rest) t := by
  have hstart : Settled .start := ⟨known_start, by simp [Metered.start, create]⟩
  have hrun := runTicks_settled steps hdelta hstart hgentle
  refine ⟨hrun.balanced, fun delta scripts hs hmax done uid times k rest hexpired hk => ?_⟩
  obtain ⟨hsized, hroom, htimes⟩ := hs
  have hsplit : ∀ u, owed u (done ++ [(uid, k)]) + owed u ((uid, times - k) :: rest) =
      owed u (collectExpired delta (runTicks steps .start).ctx.timerList 0).2 := fun u => by
    rw [hexpired, owed_append, owed_append, owed, owed, owed, owed]
    split_ifs <;> omega
  obtain ⟨-, hbooked, -⟩ := hrun.known.called hsized hsplit
  exact fun t ht => (hbooked t ht).balanced hrun hmax hroom htimes

theorem ticks_conserved_late :
    (∀ t ∈ (runTicks lateTimer .start).ctx.timerList, Balanced (runTicks lateTimer .start) [] t) ∧
      (runTicks lateTimer .start).applied 0 = 29 ∧ (runTicks lateTimer .start).fires 0 = 2 := by
  have hgentle : eachTick Tick.Gentle lateTimer .start := by
    refine ⟨⟨?_, by decide, by decide⟩, ⟨?_, by decide, by decide⟩, ⟨?_, by decide, by decide⟩, trivial⟩
    · intro a ha
      rw [List.mem_singleton.mp ha, Act.sized]
      decide
    · intro s hs
      cases hs
    · intro s hs
      cases hs
  exact ⟨(ticks_conserved lateTimer hgentle (by decide)).1, by decide, by decide⟩

-- (int)delta is 0 for a delta of 2^32 ms.
def longDelta : List Tick := [.calls [.timerRegister 10 (some 1)], .timers 4294967296 []]

theorem long_delta_lost :
    eachTick Tick.Gentle longDelta .start ∧
      ¬ ∀ t ∈ (runTicks longDelta .start).ctx.timerList, Balanced (runTicks longDelta .start) [] t := by
  constructor
  · refine ⟨⟨?_, by decide, by decide⟩, ⟨?_, by decide, by decide⟩, trivial⟩
    · intro a ha
      rw [List.mem_singleton.mp ha, Act.sized]
      decide
    · intro s hs
      cases hs
  · intro h
    have hsame : ∃ t ∈ (runTicks longDelta .start).ctx.timerList,
        t.uid = 0 ∧ t.intervalMs = 10 ∧ t.remainingMs = 10 := by decide
    obtain ⟨t, ht, huid, hms, hrem⟩ := hsame
    obtain ⟨hbalance, -⟩ := h t ht
    rw [huid, hms, hrem] at hbalance
    exact absurd hbalance (by decide)

end Sevent.Loop
