import Mathlib.Algebra.Group.Nat.Defs
import Sevent.Ws.Wire

-- The header codec: what is built is parsed back, and what is parsed is built back.
namespace Sevent.Ws

-- ---- the bytes a header is read from ----

theorem getD_append_left {b x : Bytes} {i : Nat} (h : i < b.length) :
    (b ++ x).getD i 0 = b.getD i 0 := by
  rw [List.getD_eq_getElem?_getD, List.getD_eq_getElem?_getD, List.getElem?_append_left h]

theorem keyAt_append {b : Bytes} (x : Bytes) {off : Nat} (h : off + 4 ≤ b.length) :
    keyAt (b ++ x) off = keyAt b off := by
  unfold keyAt
  rw [getD_append_left (by omega), getD_append_left (by omega), getD_append_left (by omega),
    getD_append_left (by omega)]

-- More bytes change nothing once the header has been read.
theorem parseHeader_append {b : Bytes} (x : Bytes) (h : parseHeader b ≠ .more) :
    parseHeader (b ++ x) = parseHeader b := by
  unfold parseHeader at h ⊢
  by_cases h2 : b.length < 2
  · exact absurd (if_pos h2) h
  rw [if_neg h2] at h ⊢
  rw [if_neg (by rw [List.length_append]; omega), getD_append_left (by omega),
    getD_append_left (by omega)]
  dsimp only at h ⊢
  generalize b.getD 0 0 = b0 at h ⊢
  generalize b.getD 1 0 = b1 at h ⊢
  have hext : (b1 &&& 0x7F).toNat = 127 → extendedLen (b1 &&& 0x7F).toNat = 8 := fun h => by
    rw [h]
    rfl
  generalize (b1 &&& 0x7F).toNat = len7 at h hext ⊢
  by_cases hoff : b.length < 2 + extendedLen len7
  · exact absurd (if_pos hoff) h
  rw [if_neg hoff] at h ⊢
  rw [if_neg (by rw [List.length_append]; omega)]
  have htop : (len7 = 127 ∧ (b ++ x).getD 2 0 &&& 0x80 ≠ 0) = (len7 = 127 ∧ b.getD 2 0 &&& 0x80 ≠ 0) := by
    by_cases h127 : len7 = 127
    · have h8 := hext h127
      rw [getD_append_left (by omega)]
    · simp [h127]
  simp only [htop]
  by_cases herr : len7 = 127 ∧ b.getD 2 0 &&& 0x80 ≠ 0
  · rw [if_pos herr, if_pos herr]
  rw [if_neg herr] at h ⊢
  rw [if_neg herr]
  have htake : ((b ++ x).drop 2).take (extendedLen len7) = (b.drop 2).take (extendedLen len7) := by
    rw [List.drop_append_of_le_length (by omega), List.take_append_of_le_length]
    rw [List.length_drop]
    omega
  rw [htake]
  cases hmask : b1 &&& 0x80 != 0 with
  | false => simp
  | true =>
      simp only [hmask, true_and, if_true] at h ⊢
      by_cases hkey : b.length < 2 + extendedLen len7 + 4
      · exact absurd (if_pos hkey) h
      rw [if_neg hkey, if_neg (by rw [List.length_append]; omega), keyAt_append x (by omega)]

-- A part of a frame has not been read otherwise than the whole.
theorem parseHeader_part {b f : Bytes} (hp : b <+: f) :
    parseHeader b = .more ∨ parseHeader b = parseHeader f := by
  obtain ⟨x, rfl⟩ := hp
  by_cases h : parseHeader b = .more
  · exact .inl h
  · exact .inr (parseHeader_append x h).symm

theorem parseHeader_take {b : Bytes} {hdr : FrameHeader} {n : Nat}
    (h : parseHeader b = .complete hdr n) : parseHeader (b.take n) = .complete hdr n := by
  obtain hmore | heq := parseHeader_part (List.take_prefix n b)
  · exfalso
    obtain ⟨hn, -, hb⟩ := parseHeader_complete h
    unfold parseHeader at h hmore
    have hlen : (b.take n).length = n := List.length_take_of_le hb
    rw [if_neg (by omega)] at h
    rw [if_neg (by omega)] at hmore
    have hget : ∀ i, i < n → (b.take n).getD i 0 = b.getD i 0 := fun i hi => by
      rw [List.getD_eq_getElem?_getD, List.getD_eq_getElem?_getD, List.getElem?_take_of_lt hi]
    rw [hget 0 (by omega), hget 1 (by omega), hlen] at hmore
    dsimp only at h hmore
    split at h
    · cases h
    split at h
    · cases h
    split at h
    · cases h
    obtain ⟨-, hsize⟩ := HeaderResult.complete.inj h
    rw [if_neg (by omega)] at hmore
    split at hmore
    · cases hmore
    split at hmore
    · rename_i hshort
      rw [if_pos hshort.1] at hsize
      omega
    · cases hmore
  · exact heq.trans h

theorem bigEndian_from (b : Bytes) (n : Nat) :
    b.foldl (fun n x => n * 256 + x.toNat) n = n * 256 ^ b.length + bigEndian b := by
  unfold bigEndian
  induction b generalizing n with
  | nil => simp
  | cons y rest ih =>
      rw [List.foldl_cons, List.foldl_cons, ih (n * 256 + y.toNat), ih (0 * 256 + y.toNat),
        List.length_cons, Nat.pow_succ, Nat.add_mul, Nat.mul_assoc, Nat.mul_comm 256, Nat.zero_mul,
        Nat.zero_add, Nat.add_assoc]

theorem bigEndian_cons (x : Byte) (b : Bytes) :
    bigEndian (x :: b) = x.toNat * 256 ^ b.length + bigEndian b := by
  rw [bigEndian, List.foldl_cons, bigEndian_from, Nat.zero_mul, Nat.zero_add]

theorem bigEndian_lt (b : Bytes) : bigEndian b < 256 ^ b.length := by
  induction b with
  | nil => decide
  | cons x rest ih =>
      have hx := x.toNat_lt
      have hmul : x.toNat * 256 ^ rest.length ≤ 255 * 256 ^ rest.length :=
        Nat.mul_le_mul_right _ (by omega)
      rw [bigEndian_cons, List.length_cons, Nat.pow_succ]
      omega

theorem toNat_lt_of_low (x : Byte) (h : x &&& 0x80 = 0) : x.toNat < 128 := by
  have hall : ∀ n : Fin 256, UInt8.ofNat n &&& 0x80 = 0 → n.val < 128 := by decide +kernel
  exact hall ⟨x.toNat, x.toNat_lt⟩ (by simpa using h)

theorem parseHeader_opcode {b : Bytes} {hdr : FrameHeader} {n : Nat}
    (h : parseHeader b = .complete hdr n) : hdr.opcode < 16 := by
  have hop : (b.getD 0 0 &&& 0x0F).toNat < 16 := by
    rw [UInt8.toNat_and]
    exact Nat.lt_of_le_of_lt Nat.and_le_right (by decide)
  unfold parseHeader at h
  split at h
  · cases h
  dsimp only at h
  split at h
  · cases h
  split at h
  · cases h
  split at h
  · cases h
  · cases h
    exact hop

-- ---- a header built again ----

theorem startByte_of_bits (b : Byte) (h₂ : b &&& 0x20 = 0) (h₃ : b &&& 0x10 = 0) :
    startByte (b &&& 0x80 != 0) (b &&& 0x40 != 0) (b &&& 0x0F).toNat = b := by
  have hall : ∀ n : Fin 256, let b := UInt8.ofNat n
      b &&& 0x20 = 0 → b &&& 0x10 = 0 →
        startByte (b &&& 0x80 != 0) (b &&& 0x40 != 0) (b &&& 0x0F).toNat = b := by decide +kernel
  have hb : UInt8.ofNat b.toNat = b := UInt8.ofNat_toNat
  have := hall ⟨b.toNat, b.toNat_lt⟩
  rw [hb] at this
  exact this h₂ h₃

theorem lengthByte_of_bits (b : Byte) : lengthByte (b &&& 0x80 != 0) (b &&& 0x7F).toNat = b := by
  have hall : ∀ n : Fin 256, let b := UInt8.ofNat n
      lengthByte (b &&& 0x80 != 0) (b &&& 0x7F).toNat = b := by decide +kernel
  have hb : UInt8.ofNat b.toNat = b := UInt8.ofNat_toNat
  have := hall ⟨b.toNat, b.toNat_lt⟩
  rw [hb] at this
  exact this

theorem ofNat_mul_add (n : Nat) (x : Byte) : UInt8.ofNat (n * 256 + x.toNat) = x := by
  apply UInt8.toNat_inj.mp
  have hx := x.toNat_lt
  rw [UInt8.toNat_ofNat']
  omega

theorem shiftRight_mul_add (n k : Nat) (x : Byte) : (n * 256 + x.toNat) >>> (k + 8) = n >>> k := by
  have hx := x.toNat_lt
  rw [Nat.add_comm k 8, Nat.shiftRight_add, Nat.shiftRight_eq_div_pow _ 8]
  congr 1
  omega

-- The length a header states takes no more bytes than it needs.
def ShortestLength (len7 len : Nat) : Prop := (len7 = 126 → 126 ≤ len) ∧ (len7 = 127 → 65536 ≤ len)

theorem eight_of_length {b : Bytes} (h : b.length = if 127 = 126 then 2 else if 127 = 127 then 8 else 0) :
    ∃ x₀ x₁ x₂ x₃ x₄ x₅ x₆ x₇, b = [x₀, x₁, x₂, x₃, x₄, x₅, x₆, x₇] := by
  rcases b with _ | ⟨x₀, _ | ⟨x₁, _ | ⟨x₂, _ | ⟨x₃, _ | ⟨x₄, _ | ⟨x₅, _ | ⟨x₆, _ | ⟨x₇, more⟩⟩⟩⟩⟩⟩⟩⟩
  all_goals simp at h
  exact ⟨x₀, x₁, x₂, x₃, x₄, x₅, x₆, x₇, by rw [h]⟩

theorem lengthCode_of_ext {len7 : Nat} {ext : Bytes} (h7 : len7 < 128)
    (hext : ext.length = extendedLen len7)
    (hshort : ShortestLength len7 (if len7 < 126 then len7 else bigEndian ext)) :
    lengthCode (if len7 < 126 then len7 else bigEndian ext) = (len7, ext) := by
  unfold extendedLen at hext
  by_cases h₁ : len7 < 126
  · rw [if_pos h₁] at hext ⊢
    rw [lengthCode, if_pos h₁, List.length_eq_zero_iff.mp hext]
  rw [if_neg h₁] at hext hshort ⊢
  by_cases h₂ : len7 = 126
  · rw [if_pos h₂] at hext
    obtain ⟨x, y, rfl⟩ := List.length_eq_two.mp hext
    have hx := x.toNat_lt
    have hy := y.toNat_lt
    have hlen : bigEndian [x, y] = x.toNat * 256 + y.toNat := by simp [bigEndian]
    have hmin := hshort.1 h₂
    rw [hlen] at hmin ⊢
    have hhigh : (x.toNat * 256 + y.toNat) / 256 = x.toNat := by omega
    rw [lengthCode, if_neg (by omega), if_pos (by omega), ofNat_mul_add, hhigh, UInt8.ofNat_toNat, h₂]
  · have h127 : len7 = 127 := by omega
    rw [if_neg h₂] at hext
    have hmin := hshort.2 h127
    obtain ⟨x₀, x₁, x₂, x₃, x₄, x₅, x₆, x₇, rfl⟩ := eight_of_length hext
    rw [lengthCode, if_neg (by omega), if_neg (by omega), h127]
    refine congrArg (Prod.mk 127) ?_
    have hrange : List.range 8 = [0, 1, 2, 3, 4, 5, 6, 7] := rfl
    simp only [hrange, List.map_cons, List.map_nil, bigEndian, List.foldl_cons, List.foldl_nil]
    simp only [Nat.zero_mul, Nat.zero_add, Nat.mul_zero, Nat.sub_zero, Nat.reduceMul, Nat.reduceSub]
    simp only [shiftRight_mul_add _ 48, shiftRight_mul_add _ 40, shiftRight_mul_add _ 32,
      shiftRight_mul_add _ 24, shiftRight_mul_add _ 16, shiftRight_mul_add _ 8,
      shiftRight_mul_add _ 0, Nat.shiftRight_zero, ofNat_mul_add, UInt8.ofNat_toNat]

def FrameHeader.key (hdr : FrameHeader) : Option MaskKey := if hdr.mask then some hdr.maskKey else none

theorem keyAt_bytes {b : Bytes} {off : Nat} (h : off + 4 ≤ b.length) :
    (keyAt b off).bytes = (b.drop off).take 4 := by
  have hlen : ((b.drop off).take 4).length = 4 := by
    rw [List.length_take, List.length_drop]
    omega
  refine List.ext_getElem (by rw [hlen]; rfl) fun i hi _ => ?_
  have hi : i < 4 := hi
  have hget : ∀ k, k < 4 → b.getD (off + k) 0 = ((b.drop off).take 4).getD k 0 := fun k hk => by
    rw [List.getD_eq_getElem?_getD, List.getD_eq_getElem?_getD, List.getElem?_take_of_lt hk,
      List.getElem?_drop]
  have hgetD : ((b.drop off).take 4).getD i 0 = ((b.drop off).take 4)[i] := by
    rw [List.getD_eq_getElem?_getD, List.getElem?_eq_getElem (by omega), Option.getD_some]
  rw [← hgetD, ← hget i hi]
  match i, hi with
  | 0, _ => rfl
  | 1, _ => rfl
  | 2, _ => rfl
  | 3, _ => rfl

theorem buildHeader_parsed {b : Bytes} {hdr : FrameHeader} {n : Nat}
    (h : parseHeader b = .complete hdr n) (h₂ : hdr.rsv2 = false) (h₃ : hdr.rsv3 = false)
    (hshort : ShortestLength (b.getD 1 0 &&& 0x7F).toNat hdr.payloadLen) :
    buildHeader hdr.fin hdr.rsv1 hdr.opcode hdr.key hdr.payloadLen = some (b.take n) := by
  have hop := parseHeader_opcode h
  rw [buildHeader_eq _ _ _ _ _ hop]
  unfold parseHeader at h
  match b, h with
  | [], h => simp at h
  | [x], h => simp at h
  | b₀ :: b₁ :: rest, h =>
      simp only [List.getD_cons_zero, List.getD_cons_succ] at h hshort
      rw [if_neg (by simp)] at h
      split at h
      · cases h
      rename_i hoff
      split at h
      · cases h
      split at h
      · cases h
      rename_i hkey
      cases h
      simp only [bne_eq_false_iff_eq] at h₂ h₃
      have h7 : (b₁ &&& 0x7F).toNat < 128 := by
        rw [UInt8.toNat_and]
        exact Nat.lt_of_le_of_lt Nat.and_le_right (by decide)
      have hlen7 := lengthByte_of_bits b₁
      generalize hmask : (b₁ &&& 0x80 != 0) = mask at *
      generalize (b₁ &&& 0x7F).toNat = len7 at *
      simp only [List.length_cons, List.drop_succ_cons, List.drop_zero] at *
      have hext : (rest.take (extendedLen len7)).length = extendedLen len7 := by
        rw [List.length_take]
        omega
      simp only [FrameHeader.key, startByte_of_bits b₀ h₂ h₃,
        lengthCode_of_ext h7 hext hshort]
      cases mask with
      | false =>
          simp only [Bool.false_eq_true, if_false, Option.isSome_none, hlen7, Option.map_none,
            Option.getD_none, List.append_nil, Nat.add_zero, Nat.add_comm 2, List.take_succ_cons]
      | true =>
          have hroom : ¬ rest.length + 1 + 1 < 2 + extendedLen len7 + 4 := fun h => hkey ⟨rfl, h⟩
          have hbytes : (keyAt (b₀ :: b₁ :: rest) (extendedLen len7 + 2)).bytes =
              (rest.drop (extendedLen len7)).take 4 := by
            rw [keyAt_bytes (by simp only [List.length_cons]; omega), List.drop_succ_cons,
              List.drop_succ_cons]
          simp only [if_true, Option.isSome_some, hlen7, Option.map_some, Option.getD_some, hbytes,
            Nat.add_comm 2, Nat.add_right_comm _ 2 4, List.take_succ_cons, List.take_add]

theorem header_codec :
    (∀ (fin rsv1 : Bool) (opcode : Nat) (key : Option MaskKey) (len : Nat), opcode < 16 →
      len < 9223372036854775808 →
        ∃ head, buildHeader fin rsv1 opcode key len = some head ∧
          (∀ x, parseHeader (head ++ x) =
            .complete
              { fin := fin, rsv1 := rsv1, rsv2 := false, rsv3 := false, opcode := opcode
                mask := key.isSome, payloadLen := len, maskKey := key.getD ⟨0, 0, 0, 0⟩ }
              head.length) ∧
          ∀ b, b <+: head → b ≠ head → parseHeader b = .more) ∧
      ∀ (b : Bytes) (hdr : FrameHeader) (n : Nat), parseHeader b = .complete hdr n →
        n ≤ b.length ∧ (∀ x, parseHeader (b.take n ++ x) = .complete hdr n) ∧
          (hdr.rsv2 = false → hdr.rsv3 = false →
            ShortestLength (b.getD 1 0 &&& 0x7F).toNat hdr.payloadLen →
              buildHeader hdr.fin hdr.rsv1 hdr.opcode hdr.key hdr.payloadLen = some (b.take n)) := by
  refine ⟨fun fin rsv1 opcode key len hop hlen => ?_, fun b hdr n h => ?_⟩
  · let f : WireFrame := ⟨fin, rsv1, opcode, key, List.replicate len 0, hop, by simpa using hlen⟩
    have hpayload : f.payload.length = len := List.length_replicate
    have hhead : buildHeader fin rsv1 opcode key len = some f.head := by
      rw [WireFrame.head, hpayload, buildHeader_eq fin rsv1 opcode key len hop]
      rfl
    refine ⟨f.head, hhead, fun x => ?_, fun b hp hne => ?_⟩
    · rw [f.parseHeader_head x, WireFrame.header, hpayload]
    · refine f.parseHeader_short b hp (Nat.lt_of_le_of_ne hp.length_le fun hl => hne ?_)
      exact hp.eq_of_length hl
  · have htake := parseHeader_take h
    refine ⟨(parseHeader_complete h).2.2, fun x => ?_, buildHeader_parsed h⟩
    rw [parseHeader_append x (by rw [htake]; exact HeaderResult.noConfusion), htake]

theorem header_codec_masked :
    buildHeader true false 2 (some ⟨1, 2, 3, 4⟩) 65536 =
        some [0x82, 0xFF, 0, 0, 0, 0, 0, 1, 0, 0, 1, 2, 3, 4] ∧
      parseHeader [0x82, 0xFF, 0, 0, 0, 0, 0, 1, 0, 0, 1, 2, 3] = .more := by
  obtain ⟨head, hbuild, -, hshort⟩ := header_codec.1 true false 2 (some ⟨1, 2, 3, 4⟩) 65536
    (by decide) (by decide)
  have heq : buildHeader true false 2 (some ⟨1, 2, 3, 4⟩) 65536 =
      some [0x82, 0xFF, 0, 0, 0, 0, 0, 1, 0, 0, 1, 2, 3, 4] := by decide
  refine ⟨heq, ?_⟩
  cases heq.symm.trans hbuild
  exact hshort _ (by decide) (by decide)

end Sevent.Ws
