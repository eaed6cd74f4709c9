import Sevent.Rfc4648
import Sevent.Loop.Context
import Sevent.Ws.Digest

-- Base64 (ws_base64.c): the characters are those of RFC 4648, written in place into the caller's
-- array.
namespace Sevent.Ws

theorem b64Tab_eq : b64Tab = Rfc4648.alphabet := by decide

theorem b64Quad_eq (a b c : Byte) :
    b64Quad a b c = (Rfc4648.sextets (Rfc4648.group a b c)).map Rfc4648.char := by
  have ha := a.toNat_lt
  have hb := b.toNat_lt
  have hc := c.toNat_lt
  have hgroup : Rfc4648.group a b c = a.toNat * 65536 + b.toNat * 256 + c.toNat := rfl
  have hfirst : a.toNat / 4 = Rfc4648.group a b c / 262144 := by omega
  have hsecond : a.toNat % 4 * 16 + b.toNat / 16 = Rfc4648.group a b c / 4096 % 64 := by omega
  have hthird : b.toNat % 16 * 4 + c.toNat / 64 = Rfc4648.group a b c / 64 % 64 := by omega
  have hfourth : c.toNat % 64 = Rfc4648.group a b c % 64 := by omega
  unfold b64Quad
  dsimp only
  rw [hfirst, hsecond, hthird, hfourth, b64Tab_eq]
  rfl

-- The characters with the padding written over the last ones.
def padded (raw : Bytes) : Bytes :=
  if 3 - raw.length % 3 ≠ 3 then
    (b64Chars raw).take ((raw.length + 2) / 3 * 4 - (3 - raw.length % 3)) ++
      List.replicate (3 - raw.length % 3) 61
  else b64Chars raw

theorem padded_eq (raw : Bytes) : padded raw = Rfc4648.encode raw := by
  induction raw using b64Chars.induct with
  | case1 => rfl
  | case2 a =>
      rw [padded, List.length_singleton, if_pos (by decide), b64Chars, b64Quad_eq, Rfc4648.encode]
      rfl
  | case3 a b =>
      have hlen : [a, b].length = 2 := rfl
      rw [padded, hlen, if_pos (by decide), b64Chars, b64Quad_eq, Rfc4648.encode]
      rfl
  | case4 a b c rest ih =>
      have hmod : (a :: b :: c :: rest).length % 3 = rest.length % 3 := by
        simp only [List.length_cons]
        omega
      have hsize : ((a :: b :: c :: rest).length + 2) / 3 * 4 = 4 + (rest.length + 2) / 3 * 4 := by
        simp only [List.length_cons]
        omega
      rw [Rfc4648.encode, ← b64Quad_eq, ← ih]
      unfold padded
      rw [hmod, hsize, b64Chars]
      split
      · rename_i hpad
        have hquad : (b64Quad a b c).length = 4 := rfl
        have hroom : 3 - rest.length % 3 ≤ (rest.length + 2) / 3 * 4 := by omega
        rw [List.take_append, hquad, List.take_of_length_le (by omega), List.append_assoc,
          Nat.add_sub_assoc hroom, Nat.add_sub_cancel_left]
      · rfl

theorem base64Encode_eq (raw : Bytes) (dstCap : Nat) : base64Encode raw dstCap =
    if dstCap < (raw.length + 2) / 3 * 4 + 1 then none else some (Rfc4648.encode raw) := by
  rw [← padded_eq]
  rfl

-- ---- in the memory of the caller ----

-- An object of C has no more than PTRDIFF_MAX bytes.
structure Object where
  bytes : Bytes
  size : bytes.length ≤ 9223372036854775807

def base64EncodeSize (rawLen : Nat) : Nat :=
  ((rawLen + 2) % 18446744073709551616 / 3 * 4 + 1) % 18446744073709551616

-- One character after the other, from `o` on.
def putChars : Bytes → Nat → Bytes → Bytes
  | [], _, dst => dst
  | x :: rest, o, dst => putChars rest (o + 1) (dst.set o x)

-- The loop over the input: `raw` is what is left of it, a byte behind its end counts as 0.
def encodeLoop : Bytes → Nat → Bytes → Bytes
  | [], _, dst => dst
  | [a], o, dst => putChars (b64Quad a 0 0) o dst
  | [a, b], o, dst => putChars (b64Quad a b 0) o dst
  | a :: b :: c :: rest, o, dst => encodeLoop rest (o + 4) (putChars (b64Quad a b c) o dst)

-- The last `pad` characters are replaced.
def padLoop (outLen pad : Nat) (dst : Bytes) : Bytes :=
  (List.range pad).foldl (fun dst j => dst.set (outLen - 1 - j) 61) dst

-- ws_base64_encode on an array `dst`: the result and the array after it.
def encodeInto (raw dst : Bytes) : Int × Bytes :=
  let outLen := (raw.length + 2) % 18446744073709551616 / 3 * 4 % 18446744073709551616
  if dst.length < outLen + 1 then (-1, dst)
  else
    let dst := encodeLoop raw 0 dst
    let pad := 3 - raw.length % 3
    let dst := if pad ≠ 3 then padLoop outLen pad dst else dst
    (Loop.toInt outLen, dst.set outLen 0)

theorem set_behind (l tail : Bytes) (x y : Byte) : (l ++ x :: tail).set l.length y = l ++ y :: tail := by
  rw [List.set_append_right _ _ (Nat.le_refl _), Nat.sub_self, List.set_cons_zero]

theorem putChars_eq (chars l old tail : Bytes) (h : old.length = chars.length) :
    putChars chars l.length (l ++ old ++ tail) = l ++ chars ++ tail := by
  induction chars generalizing l old with
  | nil =>
      rw [List.eq_nil_of_length_eq_zero h]
      rfl
  | cons x rest ih =>
      cases old with
      | nil => cases h
      | cons y old =>
          have hset : (l ++ (y :: old) ++ tail).set l.length x = (l ++ [x]) ++ old ++ tail := by
            rw [List.append_assoc, List.cons_append, set_behind, List.append_assoc, List.append_assoc,
              List.singleton_append]
          have hlen : (l ++ [x]).length = l.length + 1 := List.length_append
          rw [putChars, hset, ← hlen, ih (l ++ [x]) old (Nat.succ.inj h), List.append_assoc l, List.singleton_append]

theorem encodeLoop_eq (raw l old tail : Bytes) (h : old.length = (b64Chars raw).length) :
    encodeLoop raw l.length (l ++ old ++ tail) = l ++ b64Chars raw ++ tail := by
  induction raw using b64Chars.induct generalizing l old with
  | case1 =>
      rw [List.eq_nil_of_length_eq_zero h]
      rfl
  | case2 a => exact putChars_eq (b64Quad a 0 0) l old tail h
  | case3 a b => exact putChars_eq (b64Quad a b 0) l old tail h
  | case4 a b c rest ih =>
      have hquad : (b64Quad a b c).length = 4 := rfl
      have hlen : old.length = 4 + (b64Chars rest).length := by rw [h, b64Chars, List.length_append, hquad]
      have hhead : (old.take 4).length = (b64Quad a b c).length := by
        rw [List.length_take, hquad]
        omega
      have hsplit : l ++ old ++ tail = l ++ old.take 4 ++ (old.drop 4 ++ tail) := by
        rw [List.append_assoc l, List.append_assoc l, ← List.append_assoc (old.take 4), List.take_append_drop]
      have hnext : (l ++ b64Quad a b c).length = l.length + 4 := by rw [List.length_append, hquad]
      have hrest : (old.drop 4).length = (b64Chars rest).length := by
        rw [List.length_drop]
        omega
      rw [encodeLoop, hsplit, putChars_eq _ l _ _ hhead, ← List.append_assoc, ← hnext, ih _ _ hrest, b64Chars,
        ← List.append_assoc l]

theorem padLoop_eq (l pads tail : Bytes) (pad : Nat) (h : pads.length = pad) :
    padLoop (l.length + pad) pad (l ++ pads ++ tail) = l ++ List.replicate pad 61 ++ tail := by
  -- after k turns the last k of them are replaced
  have hturns : ∀ k ≤ pad,
      (List.range k).foldl (fun dst j => dst.set (l.length + pad - 1 - j) 61) (l ++ pads ++ tail) =
        l ++ pads.take (pad - k) ++ (List.replicate k 61 ++ tail) := by
    intro k hk
    induction k with
    | zero =>
        rw [List.range_zero, List.foldl_nil, Nat.sub_zero, ← h, List.take_length]
        rfl
    | succ k ih =>
        have hlt : pad - (k + 1) < pads.length := by omega
        have hpred : pad - k = pad - (k + 1) + 1 := by omega
        have hnext : l ++ pads.take (pad - k) ++ (List.replicate k 61 ++ tail) =
            (l ++ pads.take (pad - (k + 1))) ++ pads[pad - (k + 1)] :: (List.replicate k 61 ++ tail) := by
          rw [hpred, List.take_succ_eq_append_getElem hlt, ← List.append_assoc l, List.append_assoc _ [_],
            List.singleton_append]
        have hplace : l.length + pad - 1 - k = (l ++ pads.take (pad - (k + 1))).length := by
          rw [List.length_append, List.length_take]
          omega
        rw [List.range_succ, List.foldl_append, ih (by omega), List.foldl_cons, List.foldl_nil, hnext, hplace,
          set_behind, List.replicate_succ, List.cons_append]
  have hall := hturns pad (Nat.le_refl pad)
  rwa [Nat.sub_self, List.take_zero, List.append_nil, ← List.append_assoc] at hall

-- ---- the result ----

theorem outLen_eq {n : Nat} (h : n ≤ 9223372036854775807) :
    (n + 2) % 18446744073709551616 / 3 * 4 % 18446744073709551616 = (n + 2) / 3 * 4 := by
  omega

-- An array that is large enough gets the characters and a NUL, and keeps the rest.
theorem encodeInto_large (raw : Object) {dst : Bytes} (h : (raw.bytes.length + 2) / 3 * 4 + 1 ≤ dst.length) :
    encodeInto raw.bytes dst = (Loop.toInt ((raw.bytes.length + 2) / 3 * 4 : Nat),
      Rfc4648.encode raw.bytes ++ 0 :: dst.drop ((raw.bytes.length + 2) / 3 * 4 + 1)) := by
  have hout := outLen_eq raw.size
  generalize raw.bytes = m at h hout ⊢
  have hchars := b64Chars_length m
  have hlen : (Rfc4648.encode m).length = (m.length + 2) / 3 * 4 := by
    have hsome := base64Encode_eq m ((m.length + 2) / 3 * 4 + 1)
    rw [if_neg (Nat.lt_irrefl _)] at hsome
    exact base64Encode_length hsome
  have hroom : (dst.take ((m.length + 2) / 3 * 4)).length = (m.length + 2) / 3 * 4 := by
    rw [List.length_take]
    omega
  have hloop : encodeLoop m 0 dst = b64Chars m ++ dst.drop ((m.length + 2) / 3 * 4) := by
    have heq := encodeLoop_eq m [] (dst.take ((m.length + 2) / 3 * 4)) (dst.drop ((m.length + 2) / 3 * 4))
      (by rw [hroom, hchars])
    rwa [List.nil_append, List.take_append_drop, List.nil_append, List.length_nil] at heq
  have hpadded : (if 3 - m.length % 3 ≠ 3 then
      padLoop ((m.length + 2) / 3 * 4) (3 - m.length % 3) (encodeLoop m 0 dst) else encodeLoop m 0 dst) =
        Rfc4648.encode m ++ dst.drop ((m.length + 2) / 3 * 4) := by
    rw [hloop, ← padded_eq, padded]
    split
    · rename_i hpad
      have hkept : ((b64Chars m).take ((m.length + 2) / 3 * 4 - (3 - m.length % 3))).length + (3 - m.length % 3) =
          (m.length + 2) / 3 * 4 := by
        rw [List.length_take, hchars]
        omega
      have hlast : ((b64Chars m).drop ((m.length + 2) / 3 * 4 - (3 - m.length % 3))).length = 3 - m.length % 3 := by
        rw [List.length_drop, hchars]
        omega
      have hpads := padLoop_eq ((b64Chars m).take ((m.length + 2) / 3 * 4 - (3 - m.length % 3))) _ (dst.drop ((m.length + 2) / 3 * 4)) _ hlast
      rwa [List.take_append_drop, hkept] at hpads
    · rfl
  have hdrop : dst.drop ((m.length + 2) / 3 * 4) =
      dst[(m.length + 2) / 3 * 4] :: dst.drop ((m.length + 2) / 3 * 4 + 1) := List.drop_eq_getElem_cons h
  unfold encodeInto
  dsimp only
  rw [hout, if_neg (by omega), hpadded, hdrop]
  have hnul := set_behind (Rfc4648.encode m) (dst.drop ((m.length + 2) / 3 * 4 + 1)) dst[(m.length + 2) / 3 * 4] 0
  rw [hlen] at hnul
  rw [hnul]

theorem encodeInto_small (raw : Object) {dst : Bytes} (h : dst.length < (raw.bytes.length + 2) / 3 * 4 + 1) :
    encodeInto raw.bytes dst = (-1, dst) := by
  unfold encodeInto
  dsimp only
  rw [outLen_eq raw.size, if_pos h]

-- What the callers see of it is the string of base64Encode.
theorem encodeInto_base64Encode (raw : Object) (dst : Bytes) :
    encodeInto raw.bytes dst = match base64Encode raw.bytes dst.length with
      | none => (-1, dst)
      | some out => (Loop.toInt out.length, out ++ 0 :: dst.drop (out.length + 1)) := by
  by_cases h : dst.length < (raw.bytes.length + 2) / 3 * 4 + 1
  · rw [encodeInto_small raw h, base64Encode_eq, if_pos h]
  · have hsome := base64Encode_eq raw.bytes dst.length
    rw [if_neg h] at hsome
    have hlen := base64Encode_length hsome
    rw [hsome, encodeInto_large raw (Nat.le_of_not_lt h)]
    dsimp only
    rw [hlen]

-- A multiple of 4 is no -1, as an int neither.
theorem toInt_quads (k : Nat) : Loop.toInt (k * 4 : Nat) ≠ -1 := by
  intro h
  have hmod : Loop.toInt (k * 4 : Nat) % 4294967296 = (k * 4 : Nat) % 4294967296 := Int.bmod_emod
  rw [h] at hmod
  omega

-- ws_base64_encode fails and writes nothing exactly when the array is too small; else it writes
-- the encoding of RFC 4648 and a NUL, nothing else, and the encoding decodes to the input.
theorem base64_exact (raw : Object) (dst : Bytes) :
    base64EncodeSize raw.bytes.length = 4 * ((raw.bytes.length + 2) / 3) + 1 ∧
    (encodeInto raw.bytes dst = (-1, dst) ↔ dst.length < 4 * ((raw.bytes.length + 2) / 3) + 1) ∧
    ((encodeInto raw.bytes dst).1 = -1 ↔ dst.length < 4 * ((raw.bytes.length + 2) / 3) + 1) ∧
    (4 * ((raw.bytes.length + 2) / 3) + 1 ≤ dst.length → (encodeInto raw.bytes dst).2 =
      Rfc4648.encode raw.bytes ++ 0 :: dst.drop (4 * ((raw.bytes.length + 2) / 3) + 1)) ∧
    (Rfc4648.encode raw.bytes).length = 4 * ((raw.bytes.length + 2) / 3) ∧
    Rfc4648.decode (Rfc4648.encode raw.bytes) = raw.bytes := by
  rw [Nat.mul_comm 4]
  have hsize : base64EncodeSize raw.bytes.length = (raw.bytes.length + 2) / 3 * 4 + 1 := by
    have hobject := raw.size
    unfold base64EncodeSize
    omega
  have hfails : (encodeInto raw.bytes dst).1 = -1 → dst.length < (raw.bytes.length + 2) / 3 * 4 + 1 := by
    intro hret
    by_contra hlarge
    rw [encodeInto_large raw (Nat.le_of_not_lt hlarge)] at hret
    dsimp only at hret
    exact toInt_quads _ hret
  refine ⟨hsize, ⟨fun h => hfails (congrArg Prod.fst h), encodeInto_small raw⟩, ⟨hfails, fun h => ?_⟩, fun h => ?_, ?_,
    Rfc4648.decode_encode raw.bytes⟩
  · rw [encodeInto_small raw h]
  · rw [encodeInto_large raw h]
  · have hsome := base64Encode_eq raw.bytes ((raw.bytes.length + 2) / 3 * 4 + 1)
    rw [if_neg (Nat.lt_irrefl _)] at hsome
    exact base64Encode_length hsome

end Sevent.Ws
