import Mathlib.Data.List.Basic
import Mathlib.Data.List.Induction

namespace Sevent.Trace

variable {α : Type*}

-- Every event of the log happens after a history that justifies it.
def AtEach (P : List α → α → Prop) (log : List α) : Prop :=
  ∀ past e future, log = past ++ e :: future → P past e

-- The part of the log that follows an occurrence of `e`.
def After (e : α) (log since : List α) : Prop :=
  ∃ past, log = past ++ e :: since

theorem atEach_nil (P : List α → α → Prop) : AtEach P [] := by
  intro past e future h
  cases past <;> cases h

theorem append_singleton_split (log past future : List α) (e f : α) :
    log ++ [f] = past ++ e :: future ↔
      (future = [] ∧ e = f ∧ past = log) ∨
      ∃ rest, future = rest ++ [f] ∧ log = past ++ e :: rest := by
  constructor
  · intro h
    rcases List.eq_nil_or_concat future with rfl | ⟨rest, last, rfl⟩
    · obtain ⟨hl, he⟩ := List.append_inj' h rfl
      exact .inl ⟨rfl, by simpa using he.symm, hl.symm⟩
    · rw [List.concat_eq_append, ← List.cons_append, ← List.append_assoc] at h
      obtain ⟨hl, he⟩ := List.append_inj' h rfl
      have hlast : last = f := by simpa using he.symm
      exact .inr ⟨rest, by simp [hlast], hl⟩
  · rintro (⟨rfl, rfl, rfl⟩ | ⟨rest, rfl, rfl⟩) <;> simp

@[simp] theorem atEach_concat (P : List α → α → Prop) (log : List α) (e : α) :
    AtEach P (log ++ [e]) ↔ AtEach P log ∧ P log e := by
  constructor
  · intro h
    refine ⟨fun past f future hs => ?_, h log e [] rfl⟩
    exact h past f (future ++ [e]) (by rw [hs]; simp)
  · rintro ⟨hlog, he⟩ past f future hs
    rcases (append_singleton_split log past future f e).mp hs with ⟨rfl, rfl, rfl⟩ | ⟨rest, rfl, rfl⟩
    · exact he
    · exact hlog past f rest rfl

theorem atEach_append (P : List α → α → Prop) (log l : List α) :
    AtEach P (log ++ l) ↔ AtEach P log ∧ AtEach (fun past e => P (log ++ past) e) l := by
  induction l using List.reverseRecOn with
  | nil => simp [atEach_nil]
  | append_singleton l e ih =>
      rw [← List.append_assoc, atEach_concat, atEach_concat, ih, and_assoc]

-- Events that are always justified.
theorem AtEach.append {P : List α → α → Prop} {log : List α} (h : AtEach P log) (l : List α)
    (hl : ∀ e ∈ l, ∀ past, P past e) : AtEach P (log ++ l) := by
  refine (atEach_append P log l).mpr ⟨h, ?_⟩
  rintro past e future rfl
  exact hl e (by simp) _

theorem atEach_iff_get (P : List α → α → Prop) (log : List α) :
    AtEach P log ↔ ∀ i : Fin log.length, P (log.take i) (log.get i) := by
  constructor
  · intro h i
    refine h _ _ (log.drop (i + 1)) ?_
    rw [List.get_eq_getElem, ← List.drop_eq_getElem_cons, List.take_append_drop]
  · rintro h past e future rfl
    simpa using h ⟨past.length, by simp⟩

instance decidableAtEach (P : List α → α → Prop) [∀ past e, Decidable (P past e)]
    (log : List α) : Decidable (AtEach P log) :=
  decidable_of_iff _ (atEach_iff_get P log).symm

-- The one event of its kind stands in one place.
theorem split_unique {p : α → Prop} {past after past' after' : List α} {e e' : α}
    (hother : ∀ x ∈ past ++ after, ¬ p x) (he : p e) (he' : p e')
    (h : past ++ e :: after = past' ++ e' :: after') : past = past' ∧ e = e' ∧ after = after' := by
  rcases List.append_eq_append_iff.mp h with ⟨more, hpast, hrest⟩ | ⟨more, hpast, hrest⟩
  · cases more with
    | nil =>
        obtain ⟨rfl, rfl⟩ := List.cons.inj hrest
        exact ⟨by simpa using hpast.symm, rfl, rfl⟩
    | cons x more =>
        obtain ⟨-, rfl⟩ := List.cons.inj hrest
        exact absurd he' (hother e' (by simp))
  · cases more with
    | nil =>
        obtain ⟨rfl, rfl⟩ := List.cons.inj hrest
        exact ⟨by simpa using hpast, rfl, rfl⟩
    | cons x more =>
        obtain ⟨rfl, -⟩ := List.cons.inj hrest
        exact absurd he' (hother _ (by simp [hpast]))

-- Some event of the log happens after a history of the given kind.
def Somewhere (P : List α → α → Prop) (log : List α) : Prop :=
  ∃ past e, past ++ [e] <+: log ∧ P past e

theorem Somewhere.mono {P : List α → α → Prop} {log log' : List α} (hp : log <+: log')
    (h : Somewhere P log) : Somewhere P log' := by
  obtain ⟨past, e, he, hP⟩ := h
  exact ⟨past, e, he.trans hp, hP⟩

theorem not_somewhere_iff (P : List α → α → Prop) (log : List α) :
    ¬ Somewhere P log ↔ AtEach (fun past e => ¬ P past e) log := by
  constructor
  · rintro h past e future rfl hP
    exact h ⟨past, e, ⟨future, by simp⟩, hP⟩
  · rintro h ⟨past, e, ⟨future, rfl⟩, hP⟩
    exact h past e future (by simp) hP

instance decidableSomewhere (P : List α → α → Prop) [∀ past e, Decidable (P past e)]
    (log : List α) : Decidable (Somewhere P log) :=
  decidable_of_iff _ ((not_congr (not_somewhere_iff P log)).symm.trans not_not)

theorem AtEach.imp {P Q : List α → α → Prop} {log : List α} (h : AtEach P log)
    (hpq : ∀ past e, past ++ [e] <+: log → P past e → Q past e) : AtEach Q log := by
  rintro past e future rfl
  exact hpq past e ⟨future, by simp⟩ (h past e future rfl)

@[simp] theorem after_concat (log since : List α) (e f : α) :
    After e (log ++ [f]) since ↔
      (since = [] ∧ e = f) ∨ ∃ rest, since = rest ++ [f] ∧ After e log rest := by
  constructor
  · rintro ⟨past, h⟩
    rcases (append_singleton_split log past since e f).mp h with ⟨rfl, rfl, -⟩ | ⟨rest, rfl, rfl⟩
    · exact .inl ⟨rfl, rfl⟩
    · exact .inr ⟨rest, rfl, past, rfl⟩
  · rintro (⟨rfl, rfl⟩ | ⟨rest, rfl, past, rfl⟩)
    · exact ⟨log, rfl⟩
    · exact ⟨past, by simp⟩

theorem After.mem {e : α} {log since : List α} (h : After e log since) : e ∈ log := by
  obtain ⟨past, rfl⟩ := h
  simp

end Sevent.Trace
