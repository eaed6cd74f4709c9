import Sevent.Ws.Utf8

-- ws_utf8_validate accepts the encodings of Unicode scalar values and nothing else.
namespace Sevent.Ws

-- ---- the loop over the bytes, with its reads ----

-- `i + n >= len || (data[i + 1] & 0xC0) != 0x80 || ...`, as false. A read beyond the end is none.
def tailsAt (data : Bytes) (i : Nat) : Nat → Option Bool
  | 0 => some true
  | n + 1 => do
      let b ← data[i + 1]?
      if isTail b then tailsAt data (i + 1) n else some false

def needTails (data : Bytes) (i n : Nat) : Option Bool :=
  if i + n ≥ data.length then some false else tailsAt data i n

def utf8ValidateLoop (data : Bytes) : Nat → Nat → Option Bool
  | 0, _ => none
  | fuel + 1, i =>
      if i ≥ data.length then some true
      else do
        let b ← data[i]?
        if b ≤ 0x7F then utf8ValidateLoop data fuel (i + 1)
        else if 0xC2 ≤ b ∧ b ≤ 0xDF then
          if !(← needTails data i 1) then some false
          else utf8ValidateLoop data fuel (i + 2)
        else if b = 0xE0 then
          if !(← needTails data i 2) then some false
          else if (← data[i + 1]?) < 0xA0 then some false
          else utf8ValidateLoop data fuel (i + 3)
        else if 0xE1 ≤ b ∧ b ≤ 0xEC then
          if !(← needTails data i 2) then some false
          else utf8ValidateLoop data fuel (i + 3)
        else if b = 0xED then
          if !(← needTails data i 2) then some false
          else if (← data[i + 1]?) > 0x9F then some false
          else utf8ValidateLoop data fuel (i + 3)
        else if 0xEE ≤ b ∧ b ≤ 0xEF then
          if !(← needTails data i 2) then some false
          else utf8ValidateLoop data fuel (i + 3)
        else if b = 0xF0 then
          if !(← needTails data i 3) then some false
          else if (← data[i + 1]?) < 0x90 then some false
          else utf8ValidateLoop data fuel (i + 4)
        else if 0xF1 ≤ b ∧ b ≤ 0xF3 then
          if !(← needTails data i 3) then some false
          else utf8ValidateLoop data fuel (i + 4)
        else if b = 0xF4 then
          if !(← needTails data i 3) then some false
          else if (← data[i + 1]?) > 0x8F then some false
          else utf8ValidateLoop data fuel (i + 4)
        else some false

def utf8ValidateReads (data : Bytes) : Option Bool := utf8ValidateLoop data (data.length + 1) 0

theorem tailsAt_eq (data : Bytes) (i n : Nat) (h : n ≤ (data.drop (i + 1)).length) :
    tailsAt data i n = some (((data.drop (i + 1)).take n).all isTail) := by
  induction n generalizing i with
  | zero => rfl
  | succ n ih =>
      cases hd : data.drop (i + 1) with
      | nil => simp [hd] at h
      | cons b rest =>
          have hget : data[i + 1]? = some b := by
            rw [← Nat.add_zero (i + 1), ← List.getElem?_drop, hd]
            rfl
          have hrest : data.drop (i + 1 + 1) = rest := by
            rw [← List.drop_drop, hd]
            rfl
          have hn : n ≤ rest.length := by simpa [hd] using h
          have hih := ih (i + 1) (by rw [hrest]; exact hn)
          rw [hrest] at hih
          unfold tailsAt
          rw [hget]
          cases ht : isTail b <;> simp [ht, hih]

def tails (n : Nat) (rest : Bytes) : Bool := n ≤ rest.length && (rest.take n).all isTail

theorem needTails_eq {data : Bytes} {i : Nat} {b : Byte} {rest : Bytes}
    (hd : data.drop i = b :: rest) (n : Nat) :
    needTails data i n = some (tails n rest) := by
  have hlen : data.length - i = rest.length + 1 := by
    rw [← List.length_drop, hd, List.length_cons]
  have hrest : data.drop (i + 1) = rest := by
    rw [← List.drop_drop, hd]
    rfl
  unfold needTails tails
  split
  · rw [decide_eq_false (by omega), Bool.false_and]
  · rw [tailsAt_eq data i n (by rw [hrest]; omega), hrest, decide_eq_true (by omega), Bool.true_and]

theorem utf8Validate_cons (b : Byte) (rest : Bytes) :
    utf8Validate (b :: rest) =
      if b ≤ 0x7F then utf8Validate rest
      else if 0xC2 ≤ b ∧ b ≤ 0xDF then tails 1 rest && utf8Validate (rest.drop 1)
      else if b = 0xE0 then tails 2 rest && 0xA0 ≤ rest.headD 0 && utf8Validate (rest.drop 2)
      else if 0xE1 ≤ b ∧ b ≤ 0xEC then tails 2 rest && utf8Validate (rest.drop 2)
      else if b = 0xED then tails 2 rest && rest.headD 0 ≤ 0x9F && utf8Validate (rest.drop 2)
      else if 0xEE ≤ b ∧ b ≤ 0xEF then tails 2 rest && utf8Validate (rest.drop 2)
      else if b = 0xF0 then tails 3 rest && 0x90 ≤ rest.headD 0 && utf8Validate (rest.drop 3)
      else if 0xF1 ≤ b ∧ b ≤ 0xF3 then tails 3 rest && utf8Validate (rest.drop 3)
      else if b = 0xF4 then tails 3 rest && rest.headD 0 ≤ 0x8F && utf8Validate (rest.drop 3)
      else false := by
  unfold tails
  conv => lhs; unfold utf8Validate
  match rest with
  | [] => simp
  | [_] => simp
  | [_, _] => simp [Bool.and_assoc]
  | _ :: _ :: _ :: _ => simp [Bool.and_assoc]

theorem headD_of_tails {n : Nat} {rest : Bytes} (h : tails (n + 1) rest = true) :
    rest.head? = some (rest.headD 0) := by
  cases rest with
  | nil => simp [tails] at h
  | cons b rest => rfl

theorem utf8ValidateLoop_eq (data : Bytes) (fuel i : Nat) (h : data.length - i < fuel) :
    utf8ValidateLoop data fuel i = some (utf8Validate (data.drop i)) := by
  induction fuel generalizing i with
  | zero => omega
  | succ fuel ih =>
      unfold utf8ValidateLoop
      cases hd : data.drop i with
      | nil =>
          rw [if_pos (List.drop_eq_nil_iff.mp hd)]
          rfl
      | cons b rest =>
          have hlen : data.length - i = rest.length + 1 := by
            rw [← List.length_drop, hd, List.length_cons]
          have hfirst : data[i]? = some b := by
            rw [← Nat.add_zero i, ← List.getElem?_drop, hd]
            rfl
          have hsecond : data[i + 1]? = rest.head? := by
            rw [← List.getElem?_drop, hd, List.head?_eq_getElem?]
            rfl
          have hnext : ∀ k, utf8ValidateLoop data fuel (i + (k + 1)) = some (utf8Validate (rest.drop k)) := by
            intro k
            have hdrop : data.drop (i + (k + 1)) = rest.drop k := by
              rw [← List.drop_drop, hd, List.drop_succ_cons]
            rw [ih _ (by omega), hdrop]
          -- the classes of the first byte: its continuation bytes, and what bounds the second
          have hplain : ∀ n, (do
              if !(← needTails data i n) then some false
              else utf8ValidateLoop data fuel (i + (n + 1))) =
                some (tails n rest && utf8Validate (rest.drop n)) := by
            intro n
            rw [needTails_eq hd, hnext n]
            cases tails n rest <;> rfl
          have hbounded : ∀ (bad good : Byte → Prop) [DecidablePred bad] [DecidablePred good] (n : Nat),
              (∀ x, bad x ↔ ¬ good x) → (do
                if !(← needTails data i (n + 1)) then some false
                else if bad (← data[i + 1]?) then some false
                else utf8ValidateLoop data fuel (i + (n + 2))) =
                  some (tails (n + 1) rest && good (rest.headD 0) && utf8Validate (rest.drop (n + 1))) := by
            intro bad good _ _ n hbad
            rw [needTails_eq hd, hnext (n + 1), hsecond]
            cases ht : tails (n + 1) rest with
            | false => rfl
            | true =>
                rw [headD_of_tails ht]
                generalize rest.headD 0 = x
                by_cases hg : good x
                · simp [hbad, hg]
                · simp [hbad, hg]
          have hbelow : ∀ low x : Byte, x < low ↔ ¬ low ≤ x := fun _ _ => UInt8.not_le.symm
          have habove : ∀ high x : Byte, x > high ↔ ¬ x ≤ high := fun _ _ => UInt8.not_le.symm
          rw [if_neg (by omega), hfirst, Option.bind_eq_bind, Option.bind_some, utf8Validate_cons]
          by_cases c₁ : b ≤ 0x7F
          · rw [if_pos c₁, if_pos c₁, hnext 0]
            rfl
          rw [if_neg c₁, if_neg c₁]
          by_cases c₂ : 0xC2 ≤ b ∧ b ≤ 0xDF
          · rw [if_pos c₂, if_pos c₂]
            exact hplain 1
          rw [if_neg c₂, if_neg c₂]
          by_cases c₃ : b = 0xE0
          · rw [if_pos c₃, if_pos c₃]
            exact hbounded (· < 0xA0) (0xA0 ≤ ·) 1 (hbelow _)
          rw [if_neg c₃, if_neg c₃]
          by_cases c₄ : 0xE1 ≤ b ∧ b ≤ 0xEC
          · rw [if_pos c₄, if_pos c₄]
            exact hplain 2
          rw [if_neg c₄, if_neg c₄]
          by_cases c₅ : b = 0xED
          · rw [if_pos c₅, if_pos c₅]
            exact hbounded (· > 0x9F) (· ≤ 0x9F) 1 (habove _)
          rw [if_neg c₅, if_neg c₅]
          by_cases c₆ : 0xEE ≤ b ∧ b ≤ 0xEF
          · rw [if_pos c₆, if_pos c₆]
            exact hplain 2
          rw [if_neg c₆, if_neg c₆]
          by_cases c₇ : b = 0xF0
          · rw [if_pos c₇, if_pos c₇]
            exact hbounded (· < 0x90) (0x90 ≤ ·) 2 (hbelow _)
          rw [if_neg c₇, if_neg c₇]
          by_cases c₈ : 0xF1 ≤ b ∧ b ≤ 0xF3
          · rw [if_pos c₈, if_pos c₈]
            exact hplain 3
          rw [if_neg c₈, if_neg c₈]
          by_cases c₉ : b = 0xF4
          · rw [if_pos c₉, if_pos c₉]
            exact hbounded (· > 0x8F) (· ≤ 0x8F) 2 (habove _)
          rw [if_neg c₉, if_neg c₉]

-- ---- the encodings of scalar values ----

theorem isTail_iff (b : Byte) : isTail b = true ↔ 128 ≤ b.toNat ∧ b.toNat < 192 := by
  have hall : ∀ n : Fin 256, isTail (UInt8.ofNat n) = true ↔ 128 ≤ n.val ∧ n.val < 192 := by
    decide +kernel
  have := hall ⟨b.toNat, b.toNat_lt⟩
  rwa [UInt8.ofNat_toNat] at this

-- The sequences of two, three and four bytes.
def TwoBytes (b b₁ : Byte) : Prop := (0xC2 ≤ b.toNat ∧ b.toNat ≤ 0xDF) ∧ isTail b₁ = true

def ThreeBytes (b b₁ b₂ : Byte) : Prop :=
  (0xE0 ≤ b.toNat ∧ b.toNat ≤ 0xEF) ∧ isTail b₁ = true ∧ isTail b₂ = true ∧
    (b.toNat = 0xE0 → 0xA0 ≤ b₁.toNat) ∧ (b.toNat = 0xED → b₁.toNat ≤ 0x9F)

def FourBytes (b b₁ b₂ b₃ : Byte) : Prop :=
  (0xF0 ≤ b.toNat ∧ b.toNat ≤ 0xF4) ∧ isTail b₁ = true ∧ isTail b₂ = true ∧ isTail b₃ = true ∧
    (b.toNat = 0xF0 → 0x90 ≤ b₁.toNat) ∧ (b.toNat = 0xF4 → b₁.toNat ≤ 0x8F)

-- The bounds on bytes as bounds on numbers.
theorem utf8Validate_classes (b : Byte) (rest : Bytes) :
    utf8Validate (b :: rest) =
      if b.toNat ≤ 0x7F then utf8Validate rest
      else if 0xC2 ≤ b.toNat ∧ b.toNat ≤ 0xDF then tails 1 rest && utf8Validate (rest.drop 1)
      else if b.toNat = 0xE0 then
        tails 2 rest && 0xA0 ≤ (rest.headD 0).toNat && utf8Validate (rest.drop 2)
      else if 0xE1 ≤ b.toNat ∧ b.toNat ≤ 0xEC then tails 2 rest && utf8Validate (rest.drop 2)
      else if b.toNat = 0xED then
        tails 2 rest && (rest.headD 0).toNat ≤ 0x9F && utf8Validate (rest.drop 2)
      else if 0xEE ≤ b.toNat ∧ b.toNat ≤ 0xEF then tails 2 rest && utf8Validate (rest.drop 2)
      else if b.toNat = 0xF0 then
        tails 3 rest && 0x90 ≤ (rest.headD 0).toNat && utf8Validate (rest.drop 3)
      else if 0xF1 ≤ b.toNat ∧ b.toNat ≤ 0xF3 then tails 3 rest && utf8Validate (rest.drop 3)
      else if b.toNat = 0xF4 then
        tails 3 rest && (rest.headD 0).toNat ≤ 0x8F && utf8Validate (rest.drop 3)
      else false := by
  rw [utf8Validate_cons]
  simp only [UInt8.le_iff_toNat_le, ← UInt8.toNat_inj, UInt8.reduceToNat]

theorem utf8Validate_two {b b₁ : Byte} (h : TwoBytes b b₁) (rest : Bytes) :
    utf8Validate (b :: b₁ :: rest) = utf8Validate rest := by
  obtain ⟨hb, ht⟩ := h
  rw [utf8Validate_classes, if_neg (by omega), if_pos hb]
  simp [tails, ht]

theorem utf8Validate_three {b b₁ b₂ : Byte} (h : ThreeBytes b b₁ b₂) (rest : Bytes) :
    utf8Validate (b :: b₁ :: b₂ :: rest) = utf8Validate rest := by
  obtain ⟨hb, ht₁, ht₂, hlow, hhigh⟩ := h
  have ht : tails 2 (b₁ :: b₂ :: rest) = true := by simp [tails, ht₁, ht₂]
  have hsecond : (b₁ :: b₂ :: rest).headD 0 = b₁ := rfl
  rw [utf8Validate_classes, if_neg (by omega), if_neg (by omega), ht, hsecond]
  simp only [List.drop_succ_cons, List.drop_zero, Bool.true_and]
  split_ifs with h₀ h₁ hD h₂
  · rw [decide_eq_true (hlow h₀), Bool.true_and]
  · rfl
  · rw [decide_eq_true (hhigh hD), Bool.true_and]
  · rfl
  all_goals omega

theorem utf8Validate_four {b b₁ b₂ b₃ : Byte} (h : FourBytes b b₁ b₂ b₃) (rest : Bytes) :
    utf8Validate (b :: b₁ :: b₂ :: b₃ :: rest) = utf8Validate rest := by
  obtain ⟨hb, ht₁, ht₂, ht₃, hlow, hhigh⟩ := h
  have ht : tails 3 (b₁ :: b₂ :: b₃ :: rest) = true := by simp [tails, ht₁, ht₂, ht₃]
  have hsecond : (b₁ :: b₂ :: b₃ :: rest).headD 0 = b₁ := rfl
  rw [utf8Validate_classes, if_neg (by omega), if_neg (by omega), if_neg (by omega),
    if_neg (by omega), if_neg (by omega), if_neg (by omega), ht, hsecond]
  simp only [List.drop_succ_cons, List.drop_zero, Bool.true_and]
  split_ifs with h₀ h₁ h₄
  · rw [decide_eq_true (hlow h₀), Bool.true_and]
  · rfl
  · rw [decide_eq_true (hhigh h₄), Bool.true_and]
  · omega

-- What is accepted begins with one of them.
theorem utf8Validate_begins {b : Byte} {rest : Bytes} (h : utf8Validate (b :: rest) = true) :
    (b.toNat ≤ 0x7F ∧ utf8Validate rest = true) ∨
      (∃ b₁ r, rest = b₁ :: r ∧ TwoBytes b b₁ ∧ utf8Validate r = true) ∨
      (∃ b₁ b₂ r, rest = b₁ :: b₂ :: r ∧ ThreeBytes b b₁ b₂ ∧ utf8Validate r = true) ∨
      ∃ b₁ b₂ b₃ r, rest = b₁ :: b₂ :: b₃ :: r ∧ FourBytes b b₁ b₂ b₃ ∧ utf8Validate r = true := by
  have h₂ : tails 2 rest = true → ∃ b₁ b₂ r, rest = b₁ :: b₂ :: r ∧ isTail b₁ = true ∧ isTail b₂ = true := by
    intro ht
    match rest with
    | [] => simp [tails] at ht
    | [_] => simp [tails] at ht
    | b₁ :: b₂ :: r => exact ⟨b₁, b₂, r, rfl, by simpa [tails] using ht⟩
  have h₃ : tails 3 rest = true → ∃ b₁ b₂ b₃ r, rest = b₁ :: b₂ :: b₃ :: r ∧
      isTail b₁ = true ∧ isTail b₂ = true ∧ isTail b₃ = true := by
    intro ht
    match rest with
    | [] => simp [tails] at ht
    | [_] => simp [tails] at ht
    | [_, _] => simp [tails] at ht
    | b₁ :: b₂ :: b₃ :: r => exact ⟨b₁, b₂, b₃, r, rfl, by simpa [tails] using ht⟩
  rw [utf8Validate_classes] at h
  split_ifs at h with c₁ c₂ c₃ c₄ c₅ c₆ c₇ c₈ c₉
  · exact .inl ⟨c₁, h⟩
  all_goals simp only [Bool.and_eq_true, decide_eq_true_eq] at h
  · refine .inr (.inl ?_)
    match rest with
    | [] => simp [tails] at h
    | b₁ :: r => exact ⟨b₁, r, rfl, ⟨c₂, by simpa [tails] using h.1⟩, h.2⟩
  · obtain ⟨b₁, b₂, r, rfl, ht₁, ht₂⟩ := h₂ h.1.1
    exact .inr (.inr (.inl ⟨b₁, b₂, r, rfl, ⟨by omega, ht₁, ht₂, fun _ => h.1.2, fun _ => by omega⟩, h.2⟩))
  · obtain ⟨b₁, b₂, r, rfl, ht₁, ht₂⟩ := h₂ h.1
    exact .inr (.inr (.inl ⟨b₁, b₂, r, rfl,
      ⟨by omega, ht₁, ht₂, fun _ => by omega, fun _ => by omega⟩, h.2⟩))
  · obtain ⟨b₁, b₂, r, rfl, ht₁, ht₂⟩ := h₂ h.1.1
    exact .inr (.inr (.inl ⟨b₁, b₂, r, rfl, ⟨by omega, ht₁, ht₂, fun _ => by omega, fun _ => h.1.2⟩, h.2⟩))
  · obtain ⟨b₁, b₂, r, rfl, ht₁, ht₂⟩ := h₂ h.1
    exact .inr (.inr (.inl ⟨b₁, b₂, r, rfl,
      ⟨by omega, ht₁, ht₂, fun _ => by omega, fun _ => by omega⟩, h.2⟩))
  · obtain ⟨b₁, b₂, b₃, r, rfl, ht₁, ht₂, ht₃⟩ := h₃ h.1.1
    exact .inr (.inr (.inr ⟨b₁, b₂, b₃, r, rfl,
      ⟨by omega, ht₁, ht₂, ht₃, fun _ => h.1.2, fun _ => by omega⟩, h.2⟩))
  · obtain ⟨b₁, b₂, b₃, r, rfl, ht₁, ht₂, ht₃⟩ := h₃ h.1
    exact .inr (.inr (.inr ⟨b₁, b₂, b₃, r, rfl,
      ⟨by omega, ht₁, ht₂, ht₃, fun _ => by omega, fun _ => by omega⟩, h.2⟩))
  · obtain ⟨b₁, b₂, b₃, r, rfl, ht₁, ht₂, ht₃⟩ := h₃ h.1.1
    exact .inr (.inr (.inr ⟨b₁, b₂, b₃, r, rfl,
      ⟨by omega, ht₁, ht₂, ht₃, fun _ => by omega, fun _ => h.1.2⟩, h.2⟩))

-- ---- a prefix ----

theorem lead_of_two {b b₁ : Byte} (h : TwoBytes b b₁) : isTail b = false := by
  rw [← Bool.not_eq_true, isTail_iff]
  have := h.1
  omega

theorem lead_of_three {b b₁ b₂ : Byte} (h : ThreeBytes b b₁ b₂) : isTail b = false := by
  rw [← Bool.not_eq_true, isTail_iff]
  have := h.1
  omega

theorem lead_of_four {b b₁ b₂ b₃ : Byte} (h : FourBytes b b₁ b₂ b₃) : isTail b = false := by
  rw [← Bool.not_eq_true, isTail_iff]
  have := h.1
  omega

-- Fewer bytes than the first one announces.
theorem utf8Validate_short {b : Byte} {rest : Bytes} (hb : 0x80 ≤ b.toNat)
    (h₂ : 1 ≤ rest.length → 0xE0 ≤ b.toNat) (h₃ : 2 ≤ rest.length → 0xF0 ≤ b.toNat)
    (h₄ : rest.length ≤ 2) : utf8Validate (b :: rest) = false := by
  rw [← Bool.not_eq_true]
  intro h
  rcases utf8Validate_begins h with ⟨hb₁, -⟩ | ⟨b₁, r, rfl, hb₁, -⟩ | ⟨b₁, b₂, r, rfl, hb₁, -⟩ |
    ⟨b₁, b₂, b₃, r, rfl, -, -⟩
  · omega
  · have := hb₁.1
    have := h₂ (by simp)
    omega
  · have := hb₁.1
    have := h₃ (by simp)
    omega
  · simp at h₄

-- What is accepted may be cut before any byte that begins a character, and nowhere else.
theorem utf8Validate_take {b : Bytes} (h : utf8Validate b = true) (n : Nat) :
    utf8Validate (b.take n) = true ↔ ∀ x, b[n]? = some x → isTail x = false := by
  induction hl : b.length using Nat.strongRecOn generalizing b n with
  | ind l ih =>
      cases b with
      | nil => simp [utf8Validate]
      | cons b rest =>
          rw [List.length_cons] at hl
          rcases utf8Validate_begins h with ⟨hb, hr⟩ | ⟨b₁, r, rfl, hb, hr⟩ |
            ⟨b₁, b₂, r, rfl, hb, hr⟩ | ⟨b₁, b₂, b₃, r, rfl, hb, hr⟩
          · match n with
            | 0 =>
                have hlead : isTail b = false := by
                  rw [← Bool.not_eq_true, isTail_iff]
                  omega
                simp [utf8Validate, hlead]
            | n + 1 =>
                rw [List.take_succ_cons, utf8Validate_classes, if_pos hb]
                exact ih rest.length (by omega) hr n rfl
          · have hlead := lead_of_two hb
            match n with
            | 0 => simp [utf8Validate, hlead]
            | 1 =>
                have hshort : utf8Validate [b] = false :=
                  utf8Validate_short (by have := hb.1; omega) (by simp) (by simp) (by simp)
                simp [hshort, hb.2]
            | n + 2 =>
                rw [List.take_succ_cons, List.take_succ_cons, utf8Validate_two hb]
                exact ih r.length (by simp at hl; omega) hr n rfl
          · have hlead := lead_of_three hb
            have hrange := hb.1
            match n with
            | 0 => simp [utf8Validate, hlead]
            | 1 =>
                have hshort : utf8Validate [b] = false :=
                  utf8Validate_short (by omega) (by simp) (by simp) (by simp)
                simp [hshort, hb.2.1]
            | 2 =>
                have hshort : utf8Validate [b, b₁] = false :=
                  utf8Validate_short (by omega) (by simp; omega) (by simp) (by simp)
                simp [hshort, hb.2.2.1]
            | n + 3 =>
                rw [List.take_succ_cons, List.take_succ_cons, List.take_succ_cons,
                  utf8Validate_three hb]
                exact ih r.length (by simp at hl; omega) hr n rfl
          · have hlead := lead_of_four hb
            have hrange := hb.1
            match n with
            | 0 => simp [utf8Validate, hlead]
            | 1 =>
                have hshort : utf8Validate [b] = false :=
                  utf8Validate_short (by omega) (by simp) (by simp) (by simp)
                simp [hshort, hb.2.1]
            | 2 =>
                have hshort : utf8Validate [b, b₁] = false :=
                  utf8Validate_short (by omega) (by simp; omega) (by simp) (by simp)
                simp [hshort, hb.2.2.1]
            | 3 =>
                have hshort : utf8Validate [b, b₁, b₂] = false :=
                  utf8Validate_short (by omega) (by simp; omega) (by simp; omega) (by simp)
                simp [hshort, hb.2.2.2.1]
            | n + 4 =>
                rw [List.take_succ_cons, List.take_succ_cons, List.take_succ_cons,
                  List.take_succ_cons, utf8Validate_four hb]
                exact ih r.length (by simp at hl; omega) hr n rfl

-- ---- against the encodings of RFC 3629 ----

theorem tail_ofNat (n : Nat) : isTail (UInt8.ofNat (n % 64 + 128)) = true := by
  rw [isTail_iff, UInt8.toNat_ofNat']
  omega

theorem toNat_ofNat_lt {n : Nat} (h : n < 256) : (UInt8.ofNat n).toNat = n := by
  rw [UInt8.toNat_ofNat']
  omega

theorem utf8Validate_encode (c : Char) (rest : Bytes) :
    utf8Validate (String.utf8EncodeChar c ++ rest) = utf8Validate rest := by
  have hvalid : c.val.toNat < 0xD800 ∨ 0xDFFF < c.val.toNat ∧ c.val.toNat < 0x110000 := c.valid
  unfold String.utf8EncodeChar
  dsimp only
  generalize c.val.toNat = v at hvalid ⊢
  split_ifs with h₁ h₂ h₃
  · rw [List.cons_append, List.nil_append, utf8Validate_classes, if_pos]
    rw [toNat_ofNat_lt (by omega)]
    exact h₁
  · refine utf8Validate_two ⟨?_, tail_ofNat v⟩ rest
    rw [toNat_ofNat_lt (by omega)]
    omega
  · refine utf8Validate_three ⟨?_, tail_ofNat (v / 64), tail_ofNat v, ?_, ?_⟩ rest
    all_goals rw [toNat_ofNat_lt (by omega)]
    · omega
    all_goals
      rw [toNat_ofNat_lt (by omega)]
      omega
  · refine utf8Validate_four ⟨?_, tail_ofNat (v / 4096), tail_ofNat (v / 64), tail_ofNat v, ?_, ?_⟩ rest
    all_goals rw [toNat_ofNat_lt (by omega)]
    · omega
    all_goals
      rw [toNat_ofNat_lt (by omega)]
      omega

theorem ofNat_val {v : Nat} (h : v.isValidChar) : (Char.ofNat v).val.toNat = v := by
  rw [Char.ofNat, dif_pos h]
  rfl

theorem encode_one {b : Byte} (h : b.toNat ≤ 0x7F) : ∃ c, String.utf8EncodeChar c = [b] := by
  refine ⟨Char.ofNat b.toNat, ?_⟩
  unfold String.utf8EncodeChar
  rw [ofNat_val (.inl (by omega))]
  dsimp only
  rw [if_pos h, UInt8.ofNat_toNat]

theorem encode_two {b b₁ : Byte} (h : TwoBytes b b₁) : ∃ c, String.utf8EncodeChar c = [b, b₁] := by
  obtain ⟨hb, ht⟩ := h
  rw [isTail_iff] at ht
  refine ⟨Char.ofNat ((b.toNat - 0xC0) * 64 + (b₁.toNat - 0x80)), ?_⟩
  unfold String.utf8EncodeChar
  rw [ofNat_val (.inl (by omega))]
  dsimp only
  rw [if_neg (by omega), if_pos (by omega)]
  simp only [List.cons.injEq, and_true, ← UInt8.toNat_inj]
  refine ⟨?_, ?_⟩ <;> rw [toNat_ofNat_lt (by omega)] <;> omega

theorem encode_three {b b₁ b₂ : Byte} (h : ThreeBytes b b₁ b₂) :
    ∃ c, String.utf8EncodeChar c = [b, b₁, b₂] := by
  obtain ⟨hb, ht₁, ht₂, hlow, hhigh⟩ := h
  rw [isTail_iff] at ht₁ ht₂
  have hvalid : ((b.toNat - 0xE0) * 4096 + (b₁.toNat - 0x80) * 64 + (b₂.toNat - 0x80)).isValidChar := by
    unfold Nat.isValidChar
    omega
  refine ⟨Char.ofNat ((b.toNat - 0xE0) * 4096 + (b₁.toNat - 0x80) * 64 + (b₂.toNat - 0x80)), ?_⟩
  unfold String.utf8EncodeChar
  rw [ofNat_val hvalid]
  dsimp only
  rw [if_neg (by omega), if_neg (by omega), if_pos (by omega)]
  simp only [List.cons.injEq, and_true, ← UInt8.toNat_inj]
  refine ⟨?_, ?_, ?_⟩ <;> rw [toNat_ofNat_lt (by omega)] <;> omega

theorem encode_four {b b₁ b₂ b₃ : Byte} (h : FourBytes b b₁ b₂ b₃) :
    ∃ c, String.utf8EncodeChar c = [b, b₁, b₂, b₃] := by
  obtain ⟨hb, ht₁, ht₂, ht₃, hlow, hhigh⟩ := h
  rw [isTail_iff] at ht₁ ht₂ ht₃
  have hvalid : ((b.toNat - 0xF0) * 262144 + (b₁.toNat - 0x80) * 4096 + (b₂.toNat - 0x80) * 64 +
      (b₃.toNat - 0x80)).isValidChar := by
    unfold Nat.isValidChar
    omega
  refine ⟨Char.ofNat ((b.toNat - 0xF0) * 262144 + (b₁.toNat - 0x80) * 4096 + (b₂.toNat - 0x80) * 64 +
    (b₃.toNat - 0x80)), ?_⟩
  unfold String.utf8EncodeChar
  rw [ofNat_val hvalid]
  dsimp only
  rw [if_neg (by omega), if_neg (by omega), if_neg (by omega)]
  simp only [List.cons.injEq, and_true, ← UInt8.toNat_inj]
  refine ⟨?_, ?_, ?_, ?_⟩ <;> rw [toNat_ofNat_lt (by omega)] <;> omega

theorem utf8Validate_scalars (b : Bytes) :
    utf8Validate b = true ↔ ∃ cs : List Char, b = cs.flatMap String.utf8EncodeChar := by
  constructor
  · intro h
    induction hn : b.length using Nat.strongRecOn generalizing b with
    | ind n ih =>
        cases b with
        | nil => exact ⟨[], rfl⟩
        | cons b rest =>
            have hmore : ∀ (c : Char) (r : Bytes), b :: rest = String.utf8EncodeChar c ++ r →
                r.length < n → utf8Validate r = true →
                  ∃ cs : List Char, b :: rest = cs.flatMap String.utf8EncodeChar := by
              intro c r hsplit hlt hr
              obtain ⟨cs, rfl⟩ := ih r.length hlt r hr rfl
              exact ⟨c :: cs, by rw [hsplit, List.flatMap_cons]⟩
            rw [List.length_cons] at hn
            rcases utf8Validate_begins h with ⟨hb, hr⟩ | ⟨b₁, r, rfl, hb, hr⟩ |
              ⟨b₁, b₂, r, rfl, hb, hr⟩ | ⟨b₁, b₂, b₃, r, rfl, hb, hr⟩
            · obtain ⟨c, hc⟩ := encode_one hb
              exact hmore c rest (by rw [hc]; rfl) (by omega) hr
            · obtain ⟨c, hc⟩ := encode_two hb
              exact hmore c r (by rw [hc]; rfl) (by simp at hn; omega) hr
            · obtain ⟨c, hc⟩ := encode_three hb
              exact hmore c r (by rw [hc]; rfl) (by simp at hn; omega) hr
            · obtain ⟨c, hc⟩ := encode_four hb
              exact hmore c r (by rw [hc]; rfl) (by simp at hn; omega) hr
  · rintro ⟨cs, rfl⟩
    induction cs with
    | nil => rfl
    | cons c cs ih => rw [List.flatMap_cons, utf8Validate_encode, ih]

-- No read goes beyond the end, and the verdict is that of RFC 3629.
theorem utf8_exact (data : Bytes) :
    utf8ValidateReads data = some (utf8Validate data) ∧
      (utf8Validate data = true ↔ ∃ cs : List Char, data = cs.flatMap String.utf8EncodeChar) :=
  ⟨utf8ValidateLoop_eq data _ 0 (by omega), utf8Validate_scalars data⟩

end Sevent.Ws
