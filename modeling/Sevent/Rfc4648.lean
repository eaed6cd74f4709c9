import Mathlib.Data.List.Basic
import Mathlib.Logic.Function.Basic

-- Base 64 as RFC 4648 defines it (section 4), and its inverse.
namespace Sevent.Rfc4648

-- Table 1.
def alphabet : List UInt8 :=
  (List.range 26).map (fun i => UInt8.ofNat (65 + i)) ++
    (List.range 26).map (fun i => UInt8.ofNat (97 + i)) ++
    (List.range 10).map (fun i => UInt8.ofNat (48 + i)) ++ [43, 47]

def padChar : UInt8 := 61

def char (n : Nat) : UInt8 := alphabet.getD n 0

-- Three octets make a group of 24 bits, which is read as four numbers of 6 bits.
def group (a b c : UInt8) : Nat := a.toNat * 65536 + b.toNat * 256 + c.toNat

def sextets (q : Nat) : List Nat := [q / 262144, q / 4096 % 64, q / 64 % 64, q % 64]

def encode : List UInt8 → List UInt8
  | [] => []
  | [a] => ((sextets (group a 0 0)).map char).take 2 ++ [padChar, padChar]
  | [a, b] => ((sextets (group a b 0)).map char).take 3 ++ [padChar]
  | a :: b :: c :: rest => (sextets (group a b c)).map char ++ encode rest

-- ---- the inverse ----

def value (b : UInt8) : Nat := alphabet.idxOf b

def octets (x y z w : Nat) : List UInt8 :=
  let q := x * 262144 + y * 4096 + z * 64 + w
  [UInt8.ofNat (q / 65536), UInt8.ofNat (q / 256 % 256), UInt8.ofNat (q % 256)]

def decode : List UInt8 → List UInt8
  | x :: y :: z :: w :: rest =>
      if z = padChar then (octets (value x) (value y) 0 0).take 1
      else if w = padChar then (octets (value x) (value y) (value z) 0).take 2
      else octets (value x) (value y) (value z) (value w) ++ decode rest
  | _ => []

theorem char_value : ∀ n < 64, value (char n) = n ∧ char n ≠ padChar := by decide

theorem group_lt (a b c : UInt8) : group a b c < 16777216 := by
  have ha := a.toNat_lt
  have hb := b.toNat_lt
  have hc := c.toNat_lt
  unfold group
  omega

theorem octets_group (a b c : UInt8) :
    octets (group a b c / 262144) (group a b c / 4096 % 64) (group a b c / 64 % 64)
      (group a b c % 64) = [a, b, c] := by
  have ha := a.toNat_lt
  have hb := b.toNat_lt
  have hc := c.toNat_lt
  have hlt := group_lt a b c
  have hsum : group a b c / 262144 * 262144 + group a b c / 4096 % 64 * 4096 +
      group a b c / 64 % 64 * 64 + group a b c % 64 = group a b c := by omega
  have hfirst : group a b c / 65536 = a.toNat := by
    unfold group
    omega
  have hsecond : group a b c / 256 % 256 = b.toNat := by
    unfold group
    omega
  have hthird : group a b c % 256 = c.toNat := by
    unfold group
    omega
  unfold octets
  rw [hsum]
  dsimp only
  rw [hfirst, hsecond, hthird, UInt8.ofNat_toNat, UInt8.ofNat_toNat, UInt8.ofNat_toNat]

theorem decode_encode (m : List UInt8) : decode (encode m) = m := by
  have hvalues : ∀ a b c, (group a b c / 262144 < 64 ∧ group a b c / 4096 % 64 < 64) ∧
      group a b c / 64 % 64 < 64 ∧ group a b c % 64 < 64 := by
    intro a b c
    have := group_lt a b c
    omega
  induction m using encode.induct with
  | case1 => rfl
  | case2 a =>
      obtain ⟨⟨hx, hy⟩, -⟩ := hvalues a 0 0
      have hoctets := octets_group a 0 0
      have hlast : group a 0 0 / 64 % 64 = 0 ∧ group a 0 0 % 64 = 0 := by
        unfold group
        rw [UInt8.toNat_zero]
        omega
      rw [hlast.1, hlast.2] at hoctets
      simp only [encode, sextets, List.map_cons, List.take_succ_cons, List.take_zero, List.cons_append,
        List.nil_append, decode, if_true, (char_value _ hx).1, (char_value _ hy).1, hoctets]
  | case3 a b =>
      obtain ⟨⟨hx, hy⟩, hz, -⟩ := hvalues a b 0
      have hoctets := octets_group a b 0
      have hlast : group a b 0 % 64 = 0 := by
        unfold group
        rw [UInt8.toNat_zero]
        omega
      rw [hlast] at hoctets
      simp only [encode, sextets, List.map_cons, List.take_succ_cons, List.take_zero, List.cons_append,
        List.nil_append, decode, if_true, if_neg (char_value _ hz).2, (char_value _ hx).1,
        (char_value _ hy).1, (char_value _ hz).1, hoctets]
  | case4 a b c rest ih =>
      obtain ⟨⟨hx, hy⟩, hz, hw⟩ := hvalues a b c
      simp only [encode, sextets, List.map_cons, List.map_nil, List.cons_append, List.nil_append, decode,
        if_neg (char_value _ hz).2, if_neg (char_value _ hw).2, (char_value _ hx).1,
        (char_value _ hy).1, (char_value _ hz).1, (char_value _ hw).1, octets_group, ih]

theorem encode_injective : Function.Injective encode :=
  Function.LeftInverse.injective decode_encode

end Sevent.Rfc4648
