import Mathlib.Data.Nat.Basic

-- Loops, turn by turn: when they end, with what, and when they never do.
namespace Sevent.While

variable {σ β : Type*}

-- A turn ends the loop with a result, or leaves the state of the next turn. `none` = the loop
-- still goes on after that many turns.
def run (turn : σ → β ⊕ σ) : Nat → σ → Option β
  | 0, _ => none
  | n + 1, s =>
      match turn s with
      | .inl b => some b
      | .inr s' => run turn n s'

def Ends (turn : σ → β ⊕ σ) (s : σ) (b : β) : Prop := ∃ n, run turn n s = some b

def Diverges (turn : σ → β ⊕ σ) (s : σ) : Prop := ∀ n, run turn n s = none

variable {turn : σ → β ⊕ σ} {s s' : σ} {b b' : β}

theorem run_end (h : turn s = .inl b) (n : Nat) : run turn (n + 1) s = some b := by
  rw [run, h]

theorem run_next (h : turn s = .inr s') (n : Nat) : run turn (n + 1) s = run turn n s' := by
  rw [run, h]

theorem run_mono {n m : Nat} (hnm : n ≤ m) (h : run turn n s = some b) : run turn m s = some b := by
  induction n generalizing m s with
  | zero => cases h
  | succ n ih =>
      obtain ⟨m, rfl⟩ := Nat.exists_eq_add_of_le' (Nat.le_trans (Nat.succ_pos n) hnm)
      cases hturn : turn s with
      | inl x =>
          rw [run_end hturn] at h ⊢
          exact h
      | inr x =>
          rw [run_next hturn] at h ⊢
          exact ih (Nat.le_of_succ_le_succ hnm) h

theorem Ends.of_end (h : turn s = .inl b) : Ends turn s b := ⟨1, run_end h 0⟩

theorem Ends.of_next (hturn : turn s = .inr s') (h : Ends turn s' b) : Ends turn s b := by
  obtain ⟨n, hn⟩ := h
  exact ⟨n + 1, (run_next hturn n).trans hn⟩

theorem Ends.unique (h : Ends turn s b) (h' : Ends turn s b') : b = b' := by
  obtain ⟨n, hn⟩ := h
  obtain ⟨m, hm⟩ := h'
  have hmax := run_mono (Nat.le_max_left n m) hn
  exact Option.some.inj (hmax.symm.trans (run_mono (Nat.le_max_right n m) hm))

-- What holds of the last turn and goes back along every other turn holds of the loop.
theorem Ends.rule {Q : σ → β → Prop} (hend : ∀ s b, turn s = .inl b → Q s b)
    (hnext : ∀ s s' b, turn s = .inr s' → Q s' b → Q s b) (h : Ends turn s b) : Q s b := by
  obtain ⟨n, hn⟩ := h
  induction n generalizing s with
  | zero => cases hn
  | succ n ih =>
      cases hturn : turn s with
      | inl x =>
          rw [run_end hturn] at hn
          obtain rfl := Option.some.inj hn
          exact hend s x hturn
      | inr x =>
          rw [run_next hturn] at hn
          exact hnext s x b hturn (ih hn)

-- The rule of an invariant.
theorem Ends.invariant {I : σ → Prop} {Q : β → Prop} (hturn : ∀ s, I s → Sum.elim Q I (turn s))
    (hI : I s) (h : Ends turn s b) : Q b := by
  refine Ends.rule (Q := fun s b => I s → Q b) (fun s b hs hI => ?_) (fun s s' b hs ih hI => ih ?_) h hI
  · have hend := hturn s hI
    rw [hs] at hend
    exact hend
  · have hnext := hturn s hI
    rw [hs] at hnext
    exact hnext

-- A measure that every turn lowers, while the invariant holds, bounds the turns.
theorem run_total {I : σ → Prop} {μ : σ → Nat}
    (hstep : ∀ s s', I s → turn s = .inr s' → I s' ∧ μ s' < μ s) {n : Nat} (hI : I s) (hn : μ s < n) :
    ∃ b, run turn n s = some b := by
  induction n generalizing s with
  | zero => exact absurd hn (Nat.not_lt_zero _)
  | succ n ih =>
      cases hturn : turn s with
      | inl x => exact ⟨x, run_end hturn n⟩
      | inr x =>
          obtain ⟨hx, hlt⟩ := hstep s x hI hturn
          rw [run_next hturn]
          exact ih hx (Nat.lt_of_lt_of_le hlt (Nat.le_of_lt_succ hn))

theorem Ends.total {I : σ → Prop} {μ : σ → Nat}
    (hstep : ∀ s s', I s → turn s = .inr s' → I s' ∧ μ s' < μ s) (hI : I s) : ∃ b, Ends turn s b := by
  obtain ⟨b, hb⟩ := run_total hstep hI (Nat.lt_succ_self _)
  exact ⟨b, _, hb⟩

-- The same with any well-founded order.
theorem Ends.of_wellFounded {I : σ → Prop} {r : σ → σ → Prop} (hr : WellFounded r)
    (hstep : ∀ s s', I s → turn s = .inr s' → I s' ∧ r s' s) (hI : I s) : ∃ b, Ends turn s b := by
  induction s using hr.induction with
  | _ s ih =>
      cases hturn : turn s with
      | inl b => exact ⟨b, .of_end hturn⟩
      | inr s' =>
          obtain ⟨hs', hlt⟩ := hstep s s' hI hturn
          obtain ⟨b, hb⟩ := ih s' hlt hs'
          exact ⟨b, hb.of_next hturn⟩

-- A loop that is cut off after as many turns as the measure allows has had its result.
theorem Ends.of_run {μ : σ → Nat} (hstep : ∀ s s', turn s = .inr s' → μ s' < μ s)
    (hzero : ∀ s, μ s = 0 → turn s = .inl b) {n : Nat} (hn : μ s ≤ n) : Ends turn s ((run turn n s).getD b) := by
  induction n generalizing s with
  | zero => exact .of_end (hzero s (Nat.eq_zero_of_le_zero hn))
  | succ n ih =>
      cases hturn : turn s with
      | inl x =>
          rw [run_end hturn]
          exact .of_end hturn
      | inr x =>
          rw [run_next hturn]
          exact .of_next hturn (ih (Nat.le_of_lt_succ (Nat.lt_of_lt_of_le (hstep s x hturn) hn)))

theorem not_diverges_iff : ¬ Diverges turn s ↔ ∃ b, Ends turn s b := by
  unfold Diverges Ends
  rw [not_forall, exists_comm]
  exact exists_congr fun n => Option.ne_none_iff_exists'

theorem Diverges.of_next (hturn : turn s = .inr s') (h : Diverges turn s') : Diverges turn s := by
  intro n
  cases n with
  | zero => rfl
  | succ n => exact (run_next hturn n).trans (h n)

-- An invariant under which no turn is the last.
theorem Diverges.of_invariant {I : σ → Prop} (hstep : ∀ s, I s → ∃ s', turn s = .inr s' ∧ I s')
    (hI : I s) : Diverges turn s := by
  intro n
  induction n generalizing s with
  | zero => rfl
  | succ n ih =>
      obtain ⟨s', hturn, hs'⟩ := hstep s hI
      rw [run_next hturn]
      exact ih hs'

end Sevent.While
