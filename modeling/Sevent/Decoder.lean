import Mathlib.Data.List.Basic

-- Decoders of a stream that comes in pieces, over any symbols.
namespace Sevent

-- How a stream stands after a part of it: it goes on, its last block is over, or it is no stream.
inductive Reading where
  | going
  | final
  | bad
  deriving DecidableEq, Repr

-- What a part of a stream decodes to, as soon as that is certain.
structure Decoder (α β : Type) where
  text : List α → List β
  status : List α → Reading
  text_nil : text [] = []
  text_prefix : ∀ x y, text x <+: text (x ++ y)

variable {α β τ : Type}

namespace Decoder

variable (D : Decoder α β)

-- Behind `h`, the decoder takes `x` of the input and stops: no input is left, or the stream ends.
structure Takes (h x input : List α) : Prop where
  part : x <+: input
  before : ∀ y, y <+: x → y.length < x.length → D.status (h ++ y) = .going
  stops : D.status (h ++ x) = .final ∨ D.status (h ++ x) = .going ∧ x = input

-- Behind `h`, all of the input is taken.
def Going (h input : List α) : Prop := ∀ y, y <+: input → D.status (h ++ y) = .going

-- Behind `h`, the input is read up to a place where it is no stream any more.
def Breaks (h input : List α) : Prop :=
  ∃ x, x ≠ [] ∧ x <+: input ∧ (∀ y, y <+: x → y.length < x.length → D.status (h ++ y) = .going) ∧
    D.status (h ++ x) = .bad

-- Places of a stream behind which one that can be read alone is read just so.
structure Restarts (at_ : List α → Prop) : Prop where
  start : at_ []
  append : ∀ {b x}, at_ b → at_ x → at_ (b ++ x)
  text : ∀ {b x}, at_ b → D.status x ≠ .bad → D.text (b ++ x) = D.text b ++ D.text x
  status : ∀ {b x}, at_ b → D.status x ≠ .bad → D.status (b ++ x) = D.status x

variable {D}

theorem Going.takes {h input : List α} (hg : D.Going h input) : D.Takes h input input :=
  ⟨List.prefix_rfl, fun y hy _ => hg y hy, .inr ⟨hg input List.prefix_rfl, rfl⟩⟩

theorem Going.part {h x y : List α} (hg : D.Going h (x ++ y)) : D.Going h x :=
  fun z hz => hg z (hz.trans (List.prefix_append x y))

theorem Going.rest {h x y : List α} (hg : D.Going h (x ++ y)) : D.Going (h ++ x) y := by
  rintro z ⟨t, rfl⟩
  rw [List.append_assoc]
  exact hg (x ++ z) ⟨t, by rw [List.append_assoc]⟩

theorem Going.concat {h x y : List α} (hx : D.Going h x) (hy : D.Going (h ++ x) y) :
    D.Going h (x ++ y) := by
  intro z hz
  rcases List.prefix_or_prefix_of_prefix hz (List.prefix_append x y) with hshort | ⟨t, rfl⟩
  · exact hx z hshort
  · rw [← List.append_assoc]
    exact hy t ((List.prefix_append_right_inj x).mp hz)

-- All of a part is taken, so the decoder stops in what follows it.
theorem Takes.rest {h p t x : List α} (ht : D.Takes h x (p ++ t)) (hp : D.Going h p) :
    ∃ y, x = p ++ y ∧ D.Takes (h ++ p) y t := by
  have hle : p.length ≤ x.length := by
    by_contra hlt
    have hx : x <+: p := List.prefix_of_prefix_length_le ht.part (List.prefix_append p t) (by omega)
    rcases ht.stops with hst | ⟨-, rfl⟩
    · rw [hp x hx] at hst
      cases hst
    · rw [List.length_append] at hlt
      omega
  obtain ⟨y, rfl⟩ := List.prefix_of_prefix_length_le (List.prefix_append p t) ht.part hle
  refine ⟨y, rfl, (List.prefix_append_right_inj p).mp ht.part, fun z hz hlt => ?_, ?_⟩
  · rw [List.append_assoc]
    exact ht.before (p ++ z) ((List.prefix_append_right_inj p).mpr hz) (by simpa using hlt)
  · rw [List.append_assoc]
    exact ht.stops.imp id fun hgo => ⟨hgo.1, List.append_cancel_left hgo.2⟩

-- How much is taken is certain.
theorem Takes.unique {h x y input : List α} (hx : D.Takes h x input) (hy : D.Takes h y input) :
    x = y := by
  have hle : ∀ {x y : List α}, D.Takes h x input → D.Takes h y input → y.length ≤ x.length := by
    intro x y hx hy
    by_contra hlt
    have hxy : x <+: y := List.prefix_of_prefix_length_le hx.part hy.part (by omega)
    rcases hx.stops with hst | ⟨-, rfl⟩
    · rw [hy.before x hxy (by omega)] at hst
      cases hst
    · exact hlt hy.part.length_le
  exact (List.prefix_of_prefix_length_le hx.part hy.part (hle hy hx)).eq_of_length_le (hle hx hy)

-- Nothing that is taken is bad.
theorem Takes.good {h x y input : List α} (ht : D.Takes h x input) (hy : y <+: x) :
    D.status (h ++ y) ≠ .bad := by
  by_cases hlt : y.length < x.length
  · rw [ht.before y hy hlt]
    decide
  · rw [hy.eq_of_length_le (by omega)]
    rcases ht.stops with hst | ⟨hst, -⟩ <;> rw [hst] <;> decide

theorem Restarts.going {at_ : List α → Prop} (hr : D.Restarts at_) {b x : List α} (hb : at_ b)
    (hg : D.Going [] x) : D.Going b x := by
  intro y hy
  have hgo : D.status y = .going := hg y hy
  rw [hr.status hb (by rw [hgo]; decide), hgo]

theorem Restarts.takes {at_ : List α → Prop} (hr : D.Restarts at_) {b x input : List α} (hb : at_ b)
    (ht : D.Takes [] x input) : D.Takes b x input := by
  have hgood : ∀ y, y <+: x → D.status (b ++ y) = D.status y := fun y hy =>
    hr.status hb (ht.good hy)
  refine ⟨ht.part, fun y hy hlt => (hgood y hy).trans (ht.before y hy hlt), ?_⟩
  rw [hgood x List.prefix_rfl]
  exact ht.stops

-- ---- decoders that are automata ----

def steps (step : τ → α → τ × List β) (t : τ) : List α → τ × List β
  | [] => (t, [])
  | a :: rest => ((steps step (step t a).1 rest).1, (step t a).2 ++ (steps step (step t a).1 rest).2)

theorem steps_append (step : τ → α → τ × List β) (t : τ) (x y : List α) :
    steps step t (x ++ y) = ((steps step (steps step t x).1 y).1,
      (steps step t x).2 ++ (steps step (steps step t x).1 y).2) := by
  induction x generalizing t with
  | nil => rfl
  | cons a x ih => simp only [List.cons_append, steps, ih, List.append_assoc]

def ofSteps (start : τ) (step : τ → α → τ × List β) (status : τ → Reading) : Decoder α β where
  text x := (steps step start x).2
  status x := status (steps step start x).1
  text_nil := rfl
  text_prefix x y := by
    rw [steps_append]
    exact List.prefix_append _ _

@[simp] theorem ofSteps_text (start : τ) (step : τ → α → τ × List β) (status : τ → Reading)
    (x : List α) : (ofSteps start step status).text x = (steps step start x).2 := rfl

@[simp] theorem ofSteps_status (start : τ) (step : τ → α → τ × List β) (status : τ → Reading)
    (x : List α) : (ofSteps start step status).status x = status (steps step start x).1 := rfl

theorem ofSteps_restarts (start : τ) (step : τ → α → τ × List β) (status : τ → Reading) :
    (ofSteps start step status).Restarts fun b => (steps step start b).1 = start where
  start := rfl
  append := by
    intro b x hb hx
    rw [steps_append, hb]
    exact hx
  text := by
    intro b x hb _
    simp only [ofSteps_text, steps_append, hb]
  status := by
    intro b x hb _
    simp only [ofSteps_status, steps_append, hb]

-- The automaton goes on through all of the input.
def stays (step : τ → α → τ × List β) (status : τ → Reading) (t : τ) : List α → Bool
  | [] => status t == .going
  | a :: rest => status t == .going && stays step status (step t a).1 rest

theorem stays_iff (start : τ) (step : τ → α → τ × List β) (status : τ → Reading) (h input : List α) :
    stays step status (steps step start h).1 input = true ↔ (ofSteps start step status).Going h input := by
  induction input generalizing h with
  | nil =>
      rw [stays, beq_iff_eq]
      refine ⟨fun hgo y hy => ?_, fun hgo => by simpa using hgo [] List.prefix_rfl⟩
      rw [List.prefix_nil.mp hy, List.append_nil, ofSteps_status, hgo]
  | cons a rest ih =>
      have hnext : (step (steps step start h).1 a).1 = (steps step start (h ++ [a])).1 := by
        rw [steps_append]
        rfl
      rw [stays, Bool.and_eq_true, beq_iff_eq, hnext, ih]
      constructor
      · rintro ⟨hgo, hrest⟩ y hy
        cases y with
        | nil => rwa [List.append_nil]
        | cons b y =>
            obtain ⟨rfl, hy'⟩ := List.cons_prefix_cons.mp hy
            simpa using hrest y hy'
      · intro hgo
        refine ⟨by simpa using hgo [] List.nil_prefix, fun y hy => ?_⟩
        simpa using hgo (a :: y) (List.cons_prefix_cons.mpr ⟨rfl, hy⟩)

-- ---- automata with little room ----

-- The input is taken while the stream goes on and there is room: how much of it, the state behind
-- it and the text.
def fill (step : τ → α → τ × List β) (going : τ → Bool) : Nat → τ → List α → Nat × τ × List β
  | _, t, [] => (0, t, [])
  | room, t, a :: rest =>
      if going t ∧ room ≠ 0 then
        let r := fill step going (room - (step t a).2.length) (step t a).1 rest
        (r.1 + 1, r.2.1, (step t a).2 ++ r.2.2)
      else (0, t, [])

section

variable (step : τ → α → τ × List β) (going : τ → Bool) (room : Nat) (t : τ) (input : List α)

theorem fill_le : (fill step going room t input).1 ≤ input.length := by
  induction input generalizing room t with
  | nil => exact Nat.le_refl _
  | cons a rest ih =>
      rw [fill]
      split
      · exact Nat.succ_le_succ (ih _ _)
      · exact Nat.zero_le _

theorem fill_steps : (fill step going room t input).2 =
    steps step t (input.take (fill step going room t input).1) := by
  induction input generalizing room t with
  | nil => rfl
  | cons a rest ih =>
      rw [fill]
      split
      · rw [List.take_succ_cons, steps, ← ih]
      · rfl

-- No further than the end of the stream.
theorem fill_before {y : List α} (hy : y <+: input.take (fill step going room t input).1)
    (hlt : y.length < (fill step going room t input).1) : going (steps step t y).1 = true := by
  induction input generalizing room t y with
  | nil => exact absurd hlt (Nat.not_lt_zero _)
  | cons a rest ih =>
      rw [fill] at hy hlt
      split at hy
      · rename_i hgo
        rw [if_pos hgo] at hlt
        cases y with
        | nil => exact hgo.1
        | cons b y =>
            rw [List.take_succ_cons, List.cons_prefix_cons] at hy
            obtain ⟨rfl, hy⟩ := hy
            exact ih (room - (step t b).2.length) (step t b).1 hy (Nat.lt_of_succ_lt_succ hlt)
      · rw [if_neg ‹_›] at hlt
        exact absurd hlt (Nat.not_lt_zero _)

-- It stops for a reason.
theorem fill_stops : (fill step going room t input).1 = input.length ∨
    going (fill step going room t input).2.1 = false ∨
      room ≤ (fill step going room t input).2.2.length := by
  induction input generalizing room t with
  | nil => exact .inl rfl
  | cons a rest ih =>
      rw [fill]
      split
      · rcases ih (room - (step t a).2.length) (step t a).1 with h | h | h
        · exact .inl (congrArg (· + 1) h)
        · exact .inr (.inl h)
        · refine .inr (.inr ?_)
          rw [List.length_append]
          omega
      · rename_i hstop
        by_cases hgo : going t = true
        · exact .inr (.inr (by simpa [hgo] using hstop))
        · exact .inr (.inl (by simpa using hgo))

end

end Decoder

end Sevent
