import Sevent.Fips
import Sevent.Ws.Digest

-- ws_sha1.c computes the digest of FIPS 180-4, however its input is cut into updates.
namespace Sevent.Ws

def Sha1State.hash (s : Sha1State) : Fips.Hash := ⟨s.h0, s.h1, s.h2, s.h3, s.h4⟩

-- ---- one block ----

theorem rotl_one (x : UInt32) : rotl x 1 = Fips.rotl 1 x := rfl

theorem rotl_five (x : UInt32) : rotl x 5 = Fips.rotl 5 x := rfl

theorem rotl_thirty (x : UInt32) : rotl x 30 = Fips.rotl 30 x := rfl

theorem word_eq (a b c d : Byte) :
    word a b c d = ⟨a.toBitVec ++ b.toBitVec ++ c.toBitVec ++ d.toBitVec⟩ := by
  apply UInt32.toBitVec_inj.mp
  apply BitVec.eq_of_getLsbD_eq
  intro i hi
  have hshift : ∀ (x : Byte) (k : Nat), (x.toBitVec.setWidth 32 <<< k).getLsbD i =
      (decide (k ≤ i) && x.toBitVec.getLsbD (i - k)) := by
    intro x k
    rw [BitVec.getLsbD_shiftLeft, BitVec.getLsbD_setWidth, decide_eq_true hi,
      decide_eq_true (by omega : i - k < 32)]
    by_cases hki : k ≤ i
    · simp [hki, Nat.not_lt.mpr hki]
    · simp [hki, Nat.lt_of_not_le hki]
  have hlow : (d.toBitVec.setWidth 32).getLsbD i = d.toBitVec.getLsbD i := by
    rw [BitVec.getLsbD_setWidth, decide_eq_true hi, Bool.true_and]
  have hword : (word a b c d).toBitVec =
      a.toBitVec.setWidth 32 <<< 24 ||| b.toBitVec.setWidth 32 <<< 16 |||
        c.toBitVec.setWidth 32 <<< 8 ||| d.toBitVec.setWidth 32 := rfl
  have hge : ∀ (x : Byte) (j : Nat), 8 ≤ j → x.toBitVec.getLsbD j = false := fun x j h =>
    x.toBitVec.getLsbD_of_ge j h
  rw [hword]
  simp only [BitVec.getLsbD_or, BitVec.getLsbD_append, hshift, hlow]
  -- the byte that bit i is in
  split_ifs with h₁ h₂ h₃
  · rw [decide_eq_false (by omega), decide_eq_false (by omega), decide_eq_false (by omega)]
    simp
  · rw [decide_eq_false (by omega), decide_eq_false (by omega), decide_eq_true (by omega),
      hge d i (by omega)]
    simp
  · rw [decide_eq_false (by omega), decide_eq_true (by omega), decide_eq_true (by omega),
      hge d i (by omega), hge c _ (by omega), Nat.sub_sub]
    simp
  · rw [decide_eq_true (by omega), hge d i (by omega), hge c _ (by omega), hge b _ (by omega),
      Nat.sub_sub, Nat.sub_sub]
    simp

theorem choose_eq (b c d : UInt32) : (b &&& c) ||| (~~~b &&& d) = Fips.ch b c d := by
  apply UInt32.toBitVec_inj.mp
  apply BitVec.eq_of_getLsbD_eq
  intro i hi
  simp only [Fips.ch, UInt32.toBitVec_or, UInt32.toBitVec_xor, UInt32.toBitVec_and, UInt32.toBitVec_not,
    BitVec.getLsbD_or, BitVec.getLsbD_xor, BitVec.getLsbD_and, BitVec.getLsbD_not, hi]
  cases b.toBitVec.getLsbD i <;> simp

theorem majority_eq (b c d : UInt32) : (b &&& c) ||| (b &&& d) ||| (c &&& d) = Fips.maj b c d := by
  apply UInt32.toBitVec_inj.mp
  apply BitVec.eq_of_getLsbD_eq
  intro i hi
  simp only [Fips.maj, UInt32.toBitVec_or, UInt32.toBitVec_xor, UInt32.toBitVec_and,
    BitVec.getLsbD_or, BitVec.getLsbD_xor, BitVec.getLsbD_and]
  cases b.toBitVec.getLsbD i <;> cases c.toBitVec.getLsbD i <;> simp

theorem sha1Mix_eq (i : Nat) (b c d : UInt32) : sha1Mix i b c d = Fips.f i b c d := by
  unfold sha1Mix Fips.f
  split_ifs
  · exact choose_eq b c d
  · rfl
  · exact majority_eq b c d
  · rfl

theorem words_eq (n : Nat) (p : Bytes) (h : p.length = 4 * n) :
    words p = (List.range n).map (Fips.word p) := by
  induction n generalizing p with
  | zero => rw [List.length_eq_zero_iff.mp h]; rfl
  | succ n ih =>
      match p, h with
      | a :: b :: c :: d :: rest, h =>
          have hrest : rest.length = 4 * n := by
            simp only [List.length_cons] at h
            omega
          rw [words, ih rest hrest, List.range_succ_eq_map, List.map_cons, List.map_map, word_eq]
          rfl

theorem getD_schedule (w : Nat → UInt32) {t j : Nat} (h : j < t) :
    ((List.range t).map w).reverse.getD j 0 = w (t - 1 - j) := by
  rw [List.getD_eq_getElem?_getD, List.getElem?_reverse (by simpa using h)]
  simp only [List.length_map, List.length_range]
  rw [List.getElem?_map, List.getElem?_range (by omega)]
  rfl

theorem sha1Schedule_eq (m : Bytes) (n t : Nat) (h : 16 ≤ t) :
    sha1Schedule n ((List.range t).map (Fips.schedule m)).reverse =
      ((List.range (t + n)).map (Fips.schedule m)).reverse := by
  induction n generalizing t with
  | zero => rfl
  | succ n ih =>
      have hnext : Fips.schedule m t = rotl (Fips.schedule m (t - 1 - 2) ^^^ Fips.schedule m (t - 1 - 7) ^^^
          Fips.schedule m (t - 1 - 13) ^^^ Fips.schedule m (t - 1 - 15)) 1 := by
        rw [Fips.schedule, if_neg (by omega), rotl_one, Nat.sub_sub, Nat.sub_sub, Nat.sub_sub, Nat.sub_sub]
      rw [sha1Schedule, getD_schedule _ (by omega), getD_schedule _ (by omega), getD_schedule _ (by omega),
        getD_schedule _ (by omega), ← hnext]
      have hlonger : Fips.schedule m t :: ((List.range t).map (Fips.schedule m)).reverse =
          ((List.range (t + 1)).map (Fips.schedule m)).reverse := by
        rw [List.range_succ, List.map_append, List.reverse_append]
        rfl
      rw [hlonger, ih (t + 1) (by omega), Nat.add_right_comm, Nat.add_assoc]

theorem sha1Rounds_eq (m : Bytes) (i n : Nat) (s : Sha1State) :
    (sha1Rounds i s ((List.range' i n).map (Fips.schedule m))).hash =
      (List.range' i n).foldl (Fips.round m) s.hash := by
  induction n generalizing i s with
  | zero => rfl
  | succ n ih =>
      rw [List.range'_succ, List.map_cons, List.foldl_cons, sha1Rounds, ih]
      congr 1
      simp only [Fips.round, Sha1State.hash, rotl_five, rotl_thirty, sha1Mix_eq, Fips.Hash.mk.injEq,
        and_true]
      have hk : sha1Constant i = Fips.k i := rfl
      rw [hk]
      ac_rfl

theorem sha1Transform_eq (s : Sha1State) (m : Bytes) (h : m.length = 64) :
    (sha1Transform s m).hash = Fips.compress s.hash m := by
  have hwords : words m = (List.range 16).map (Fips.schedule m) := by
    rw [words_eq 16 m h]
    refine List.map_congr_left fun t ht => ?_
    rw [Fips.schedule, if_pos (List.mem_range.mp ht)]
  have hrounds := sha1Rounds_eq m 0 80 s
  rw [← List.range_eq_range'] at hrounds
  unfold sha1Transform Fips.compress
  rw [hwords, sha1Schedule_eq m 64 16 (Nat.le_refl 16), List.reverse_reverse, ← hrounds]
  simp only [Sha1State.hash, Fips.Hash.mk.injEq]
  refine ⟨?_, ?_, ?_, ?_, ?_⟩ <;> exact UInt32.add_comm _ _

-- ---- block after block ----

-- The state after the whole blocks, and what is left.
def absorb (s : Sha1State) (p : Bytes) : Sha1State × Bytes := sha1Blocks p.length s p

theorem sha1Blocks_short (fuel : Nat) (s : Sha1State) {p : Bytes} (h : p.length < 64) :
    sha1Blocks fuel s p = (s, p) := by
  cases fuel with
  | zero => rfl
  | succ fuel => rw [sha1Blocks, if_neg (by omega)]

theorem sha1Blocks_fuel (fuel fuel' : Nat) (s : Sha1State) (p : Bytes) (h : p.length ≤ fuel)
    (h' : p.length ≤ fuel') : sha1Blocks fuel s p = sha1Blocks fuel' s p := by
  induction fuel generalizing fuel' s p with
  | zero => rw [sha1Blocks_short _ _ (by omega), sha1Blocks_short _ _ (by omega)]
  | succ fuel ih =>
      by_cases hp : p.length < 64
      · rw [sha1Blocks_short _ _ hp, sha1Blocks_short _ _ hp]
      have hlen : (p.drop 64).length = p.length - 64 := List.length_drop
      obtain ⟨n, rfl⟩ : ∃ n, fuel' = n + 1 := ⟨fuel' - 1, by omega⟩
      rw [sha1Blocks, sha1Blocks, if_pos (by omega), if_pos (by omega), ih n _ _ (by omega) (by omega)]

theorem absorb_short (s : Sha1State) {p : Bytes} (h : p.length < 64) : absorb s p = (s, p) :=
  sha1Blocks_short _ s h

theorem absorb_block (s : Sha1State) {p : Bytes} (h : 64 ≤ p.length) :
    absorb s p = absorb (sha1Transform s (p.take 64)) (p.drop 64) := by
  have hlen : (p.drop 64).length = p.length - 64 := List.length_drop
  rw [absorb, show p.length = (p.length - 1) + 1 by omega, sha1Blocks, if_pos h,
    sha1Blocks_fuel _ _ _ _ (by omega) (Nat.le_refl _), absorb]

theorem absorb_append (s : Sha1State) (p q : Bytes) :
    absorb s (p ++ q) = absorb (absorb s p).1 ((absorb s p).2 ++ q) := by
  induction hn : p.length using Nat.strongRecOn generalizing s p with
  | ind n ih =>
      by_cases hp : p.length < 64
      · rw [absorb_short s hp]
      have hp : 64 ≤ p.length := Nat.le_of_not_lt hp
      have hlen : (p.drop 64).length = p.length - 64 := List.length_drop
      rw [absorb_block s hp, absorb_block s (by rw [List.length_append]; omega),
        List.take_append_of_le_length hp, List.drop_append_of_le_length hp]
      exact ih _ (by omega) _ _ rfl

theorem absorb_rest (s : Sha1State) (p : Bytes) : (absorb s p).2.length = p.length % 64 := by
  induction hn : p.length using Nat.strongRecOn generalizing s p with
  | ind n ih =>
      by_cases hp : p.length < 64
      · rw [absorb_short s hp, ← hn, Nat.mod_eq_of_lt hp]
      have hlen : (p.drop 64).length = p.length - 64 := List.length_drop
      rw [absorb_block s (Nat.le_of_not_lt hp), ih _ (by omega) _ _ rfl, hlen]
      omega

theorem absorb_hash (s : Sha1State) (p : Bytes) :
    (absorb s p).1.hash =
      (List.range (p.length / 64)).foldl (fun h i => Fips.compress h (Fips.block p i)) s.hash := by
  induction hn : p.length using Nat.strongRecOn generalizing s p with
  | ind n ih =>
      by_cases hp : p.length < 64
      · rw [absorb_short s hp, ← hn, Nat.div_eq_of_lt hp]
        rfl
      have hlen : (p.drop 64).length = p.length - 64 := List.length_drop
      have htake : (p.take 64).length = 64 := by
        rw [List.length_take]
        omega
      rw [absorb_block s (Nat.le_of_not_lt hp), ih _ (by omega) _ _ rfl, hlen,
        show n / 64 = (p.length - 64) / 64 + 1 by omega, Fips.foldl_blocks, sha1Transform_eq s _ htake]

-- ---- updates ----

-- What a context that has taken in `data` holds.
structure Sha1Ctx.Holds (ctx : Sha1Ctx) (data : Bytes) : Prop where
  taken : (ctx.state, ctx.buffer) = absorb sha1Init.state data
  count : ctx.count = data.length % 18446744073709551616

theorem sha1Init_holds : sha1Init.Holds [] := ⟨rfl, rfl⟩

theorem Sha1Ctx.Holds.update {ctx : Sha1Ctx} {data : Bytes} (h : ctx.Holds data) (piece : Bytes) :
    (sha1Update ctx piece).Holds (data ++ piece) := by
  have hidx : ctx.count % 64 = ctx.buffer.length := by
    have hbuffer := absorb_rest sha1Init.state data
    rw [← h.taken] at hbuffer
    rw [h.count, hbuffer]
    omega
  have hbuffered : ctx.buffer.take (ctx.count % 64) = ctx.buffer := by rw [hidx, List.take_length]
  have happend : absorb sha1Init.state (data ++ piece) = absorb ctx.state (ctx.buffer ++ piece) := by
    rw [absorb_append, ← h.taken]
  have hless : ctx.buffer.length < 64 := by omega
  unfold sha1Update
  dsimp only
  rw [hbuffered]
  refine ⟨?_, ?_⟩
  · rw [happend]
    by_cases hfill : ctx.count % 64 > 0 ∧ ctx.count % 64 + piece.length ≥ 64
    · have htake : (ctx.buffer ++ piece).take 64 = ctx.buffer ++ piece.take (64 - ctx.buffer.length) := by
        rw [List.take_append, List.take_of_length_le (Nat.le_of_lt hless)]
      have hdrop : (ctx.buffer ++ piece).drop 64 = piece.drop (64 - ctx.buffer.length) := by
        rw [List.drop_append, List.drop_eq_nil_of_le (Nat.le_of_lt hless), List.nil_append]
      simp only [if_pos hfill]
      rw [absorb_block ctx.state (p := ctx.buffer ++ piece) (by rw [List.length_append]; omega), htake,
        hdrop, hidx]
      rfl
    · simp only [if_neg hfill]
      show ((absorb ctx.state piece).1, ctx.buffer ++ (absorb ctx.state piece).2) = _
      by_cases hnone : ctx.buffer = []
      · rw [hnone]
        rfl
      · have hpos := List.length_pos_iff.mpr hnone
        rw [absorb_short ctx.state (p := piece) (by omega),
          absorb_short ctx.state (by rw [List.length_append]; omega)]
  · simp only [h.count, List.length_append]
    omega

theorem Sha1Ctx.Holds.updates {ctx : Sha1Ctx} {data : Bytes} (h : ctx.Holds data) (pieces : List Bytes) :
    (pieces.foldl sha1Update ctx).Holds (data ++ pieces.flatten) := by
  induction pieces generalizing ctx data with
  | nil => simpa using h
  | cons piece rest ih =>
      rw [List.foldl_cons, List.flatten_cons, ← List.append_assoc]
      exact ih (h.update piece)

theorem bytes64_eq (n : Nat) : bytes64 n = Fips.lengthBytes n := by
  unfold bytes64 Fips.lengthBytes
  simp only [Nat.shiftRight_eq_div_pow]
  rfl

theorem Sha1Ctx.Holds.final {ctx : Sha1Ctx} {data : Bytes} (h : ctx.Holds data)
    (hlen : data.length < 2305843009213693952) : sha1Final ctx = Fips.sha1 data := by
  have hbits : ctx.count * 8 % 18446744073709551616 = 8 * data.length := by
    rw [h.count]
    omega
  have hpad : (if ctx.count % 64 < 56 then 56 - ctx.count % 64 else 120 - ctx.count % 64) - 1 =
      Fips.zeros data.length := by
    rw [h.count]
    unfold Fips.zeros
    split <;> omega
  have hlast := (h.update (0x80 :: List.replicate (Fips.zeros data.length) 0)).update
    (Fips.lengthBytes (8 * data.length))
  have hhash := absorb_hash sha1Init.state (Fips.pad data)
  rw [show data ++ 0x80 :: List.replicate (Fips.zeros data.length) 0 ++
    Fips.lengthBytes (8 * data.length) = Fips.pad data from rfl] at hlast
  rw [← hlast.taken] at hhash
  unfold sha1Final
  simp only [hpad, hbits, bytes64_eq]
  generalize sha1Update (sha1Update ctx _) _ = last at hhash ⊢
  unfold Fips.sha1 Fips.hash
  rw [show Fips.initial = sha1Init.state.hash from rfl, ← hhash]
  rfl

-- In whatever pieces it comes, the empty ones among them.
theorem sha1_incremental (pieces : List Bytes) (h : pieces.flatten.length < 2305843009213693952) :
    sha1Final (pieces.foldl sha1Update sha1Init) = Fips.sha1 pieces.flatten :=
  (sha1Init_holds.updates pieces).final h

theorem sha1_incremental_abc :
    sha1Final ([[0x61], [], [0x62, 0x63]].foldl sha1Update sha1Init) = Fips.sha1 [0x61, 0x62, 0x63] :=
  sha1_incremental [[0x61], [], [0x62, 0x63]] (by decide)

end Sevent.Ws
