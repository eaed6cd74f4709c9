import Sevent.Http.Parse

-- Decimal numbers as printf writes them and as the parser reads them.
namespace Sevent.Http

theorem digits_mem {n : Nat} {b : Byte} (h : b ∈ ascii (toString n)) :
    ∃ k < 10, b = UInt8.ofNat (48 + k) := by
  obtain ⟨c, hc, rfl⟩ := List.mem_map.mp h
  have htext : (toString n).toList = Nat.toDigits 10 n := Nat.toList_repr
  rw [htext] at hc
  have hd := Nat.isDigit_of_mem_toDigits (by decide) (by decide) hc
  simp only [Char.isDigit, Bool.and_eq_true, decide_eq_true_eq] at hd
  have hlow : 48 ≤ c.toNat := UInt32.le_iff_toNat_le.mp hd.1
  have hhigh : c.toNat ≤ 57 := UInt32.le_iff_toNat_le.mp hd.2
  refine ⟨c.toNat - 48, by omega, ?_⟩
  rw [Nat.add_sub_of_le hlow]

theorem digits_plain (n : Nat) : ∀ b ∈ ascii (toString n), b ≠ 13 ∧ b ≠ 10 ∧ isBlank b = false := by
  have hdigit : ∀ k < 10, UInt8.ofNat (48 + k) ≠ 13 ∧ UInt8.ofNat (48 + k) ≠ 10 ∧
      isBlank (UInt8.ofNat (48 + k)) = false := by decide
  intro b hb
  obtain ⟨k, hk, rfl⟩ := digits_mem hb
  exact hdigit k hk

theorem digits_isDigit (n : Nat) : (ascii (toString n)).all isDigit = true := by
  have hdigit : ∀ k < 10, isDigit (UInt8.ofNat (48 + k)) = true := by decide
  rw [List.all_eq_true]
  intro b hb
  obtain ⟨k, hk, rfl⟩ := digits_mem hb
  exact hdigit k hk

theorem digits_length (n : Nat) : (ascii (toString n)).length = (Nat.toDigits 10 n).length := by
  have htext : (toString n).toList = Nat.toDigits 10 n := Nat.toList_repr
  rw [ascii, List.length_map, htext]

theorem digits_pos (n : Nat) : 0 < (ascii (toString n)).length := by
  rw [digits_length]
  exact Nat.length_toDigits_pos

theorem digits_length_le {n k : Nat} (hk : 0 < k) (h : n < Nat.pow 10 k) : (ascii (toString n)).length ≤ k := by
  rw [digits_length]
  exact (Nat.length_toDigits_le_iff (by decide) hk).mpr h

theorem decimalValue_digits (n : Nat) : decimalValue (ascii (toString n)) = n := by
  have htext : (toString n).toList = Nat.toDigits 10 n := Nat.toList_repr
  have hvalue := Nat.ofDigitChars_ten_toDigits (n := n)
  have hread : ∀ (l : List Char) (acc : Nat), (∀ c ∈ l, c.isDigit = true) →
      (l.map fun c => UInt8.ofNat c.toNat).foldl (fun n b => n * 10 + (b.toNat - 48)) acc =
        Nat.ofDigitChars 10 l acc := by
    intro l
    induction l with
    | nil => exact fun _ _ => rfl
    | cons c l ih =>
        intro acc hl
        have hc := hl c List.mem_cons_self
        simp only [Char.isDigit, Bool.and_eq_true, decide_eq_true_eq] at hc
        have hhigh : c.toNat ≤ 57 := UInt32.le_iff_toNat_le.mp hc.2
        have hbyte : (UInt8.ofNat c.toNat).toNat = c.toNat := Nat.mod_eq_of_lt (by omega)
        rw [List.map_cons, List.foldl_cons, ih _ fun d hd => hl d (List.mem_cons_of_mem c hd),
          Nat.ofDigitChars_cons, hbyte, Nat.mul_comm]
        rfl
  unfold decimalValue ascii
  rw [htext, hread _ 0 fun c hc => Nat.isDigit_of_mem_toDigits (by decide) (by decide) hc, hvalue]

theorem le_decimal (v : Bytes) (acc : Nat) :
    acc ≤ v.foldl (fun n b => n * 10 + (b.toNat - 48)) acc := by
  induction v generalizing acc with
  | nil => exact Nat.le_refl acc
  | cons b v ih =>
      have hrest := ih (acc * 10 + (b.toNat - 48))
      rw [List.foldl_cons]
      omega

-- Digits whose number fits are read as that number.
theorem parseContentLength_eq {v : Bytes} (hdigits : v.all isDigit = true) (acc : Nat)
    (hfit : v.foldl (fun n b => n * 10 + (b.toNat - 48)) acc ≤ sizeMax) :
    parseContentLength v acc = some (v.foldl (fun n b => n * 10 + (b.toNat - 48)) acc) := by
  induction v generalizing acc with
  | nil => rfl
  | cons b v ih =>
      obtain ⟨hb, hv⟩ := Bool.and_eq_true_iff.mp ((List.all_cons ..).symm.trans hdigits)
      rw [List.foldl_cons] at hfit ⊢
      have hstep := (le_decimal v (acc * 10 + (b.toNat - 48))).trans hfit
      have hroom : ¬ acc > (sizeMax - (b.toNat - 48)) / 10 := by omega
      rw [parseContentLength, if_neg (by rw [hb]; decide)]
      dsimp only
      rw [if_neg hroom, ih hv _ hfit]

theorem parseContentLength_digits {n : Nat} (h : n ≤ sizeMax) :
    parseContentLength (ascii (toString n)) 0 = some n := by
  have hvalue := decimalValue_digits n
  unfold decimalValue at hvalue
  rw [parseContentLength_eq (digits_isDigit n) 0 (hvalue.symm ▸ h), hvalue]

end Sevent.Http
