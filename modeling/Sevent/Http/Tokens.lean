import Sevent.While
import Sevent.Http.Parse

namespace Sevent.Http

-- Some element of the comma-separated value, stripped of blanks, is the token.
def HasToken (val token : Bytes) : Prop := ∃ elem ∈ val.splitOn 44, ciEq (trim elem) token = true

theorem ciEq_nil_left (token : Bytes) (h : token ≠ []) : ciEq [] token = false := by
  cases token with
  | nil => exact absurd rfl h
  | cons b rest => rfl

theorem trim_blank {v : Bytes} (h : ∀ b ∈ v, isBlank b = true) : trim v = [] := by
  have hl : ltrim v = [] := List.dropWhile_eq_nil_iff.mpr h
  simp [trim, hl, rtrim]

theorem trim_cons_blank {b : Byte} (h : isBlank b = true) (v : Bytes) : trim (b :: v) = trim v := by
  rw [trim, ltrim, List.dropWhile_cons_of_pos h]
  rfl

private theorem not_comma {seg : Bytes} (h : 44 ∉ seg) : ∀ b ∈ seg, (b == 44) = false := by
  intro b hb
  simp only [beq_eq_false_iff_ne]
  rintro rfl
  exact h hb

theorem hasToken_of_no_comma (seg token : Bytes) (h : 44 ∉ seg) :
    HasToken seg token ↔ ciEq (trim seg) token = true := by
  simp [HasToken, List.splitOn_eq_splitOnP, List.splitOnP_eq_singleton (not_comma h)]

theorem hasToken_comma (seg tail token : Bytes) (h : 44 ∉ seg) :
    HasToken (seg ++ 44 :: tail) token ↔ ciEq (trim seg) token = true ∨ HasToken tail token := by
  simp [HasToken, List.splitOn_eq_splitOnP,
    List.splitOnP_append_cons_of_forall_mem (not_comma h) 44 rfl tail]

theorem hasToken_blanks (blanks token : Bytes) (h : ∀ b ∈ blanks, isBlank b = true)
    (ht : token ≠ []) : ¬ HasToken blanks token := by
  have hc : 44 ∉ blanks := fun hm => absurd (h 44 hm) (by decide)
  rw [hasToken_of_no_comma _ _ hc, trim_blank h, ciEq_nil_left _ ht]
  simp

-- Blanks left over before a comma are an empty element.
theorem hasToken_blanks_comma (blanks tail token : Bytes) (h : ∀ b ∈ blanks, isBlank b = true)
    (ht : token ≠ []) : HasToken (blanks ++ 44 :: tail) token ↔ HasToken tail token := by
  have hc : 44 ∉ blanks := fun hm => absurd (h 44 hm) (by decide)
  rw [hasToken_comma _ _ _ hc, trim_blank h, ciEq_nil_left _ ht]
  simp

-- A value is its first element, or its first element, a comma and the rest.
theorem comma_split (rest : Bytes) :
    (44 ∉ rest ∧ rest.takeWhile (· != 44) = rest) ∨
      ∃ seg tail, rest.takeWhile (· != 44) = seg ∧ rest = seg ++ 44 :: tail ∧ 44 ∉ seg := by
  induction rest with
  | nil => exact .inl ⟨by simp, rfl⟩
  | cons b rest ih =>
      by_cases hb : b = 44
      · exact .inr ⟨[], rest, by simp [hb], by simp [hb], by simp⟩
      · have htake : (b :: rest).takeWhile (· != 44) = b :: rest.takeWhile (· != 44) := by
          simp [hb]
        rcases ih with ⟨hno, hall⟩ | ⟨seg, tail, hseg, hrest, hno⟩
        · exact .inl ⟨by simp [hno, Ne.symm hb], by rw [htake, hall]⟩
        · refine .inr ⟨b :: seg, tail, by rw [htake, hseg], by rw [hrest]; rfl, ?_⟩
          simp [hno, Ne.symm hb]

-- The part of an element that rtrim removes.
theorem rtrim_split (seg : Bytes) :
    ∃ blanks, seg = rtrim seg ++ blanks ∧ ∀ b ∈ blanks, isBlank b = true :=
  ⟨seg.rtakeWhile isBlank, (List.rdropWhile_append_rtakeWhile (p := isBlank)).symm,
    fun _ hb => List.mem_rtakeWhile_imp hb⟩

-- One turn of the loop either finds the token or leaves a value that has it iff the old one had.
theorem hasToken_resume (rest token : Bytes) (ht : token ≠ [])
    (hne : ciEq (trim (rest.takeWhile (· != 44))) token = false) :
    HasToken (rest.drop ((if trim (rest.takeWhile (· != 44)) = [] then
        (rest.takeWhile (· != 44)).length
      else (rtrim (rest.takeWhile (· != 44))).length) + 1)) token ↔ HasToken rest token := by
  obtain ⟨blanks, hsplit, hblank⟩ := rtrim_split (rest.takeWhile (· != 44))
  rcases comma_split rest with ⟨hno, hall⟩ | ⟨seg, tail, hseg, hrest, hno⟩
  · rw [hall] at hne hsplit ⊢
    rw [hasToken_of_no_comma _ _ hno, hne]
    simp only [Bool.false_eq_true, iff_false]
    refine hasToken_blanks _ _ ?_ ht
    generalize rtrim rest = kept at hsplit ⊢
    intro b hb
    split at hb
    · rw [List.drop_eq_nil_of_le (Nat.le_succ _)] at hb
      cases hb
    · rw [hsplit, ← List.drop_drop, List.drop_left] at hb
      exact hblank b (List.mem_of_mem_drop hb)
  · rw [hseg] at hne hsplit ⊢
    have hold : HasToken rest token ↔ HasToken tail token := by
      rw [hrest, hasToken_comma _ _ _ hno, hne]
      simp
    rw [hold]
    split
    · rw [hrest, ← List.drop_drop, List.drop_left]
      simp
    · have hdrop : rest.drop ((rtrim seg).length + 1) = (blanks ++ 44 :: tail).drop 1 := by
        generalize rtrim seg = kept at hsplit ⊢
        rw [hrest, hsplit, List.append_assoc, ← List.drop_drop, List.drop_left]
      rw [hdrop]
      cases blanks with
      | nil => simp
      | cons b blanks =>
          exact hasToken_blanks_comma blanks tail token (fun b' hb' => hblank b' (by simp [hb'])) ht

-- ---- hdr_has_token ----

-- One turn of the loop over what is left of the value.
def hdrTurn (token rest : Bytes) : Bool ⊕ Bytes :=
  if rest = [] then .inl false
  else
    let seg := rest.takeWhile (· != 44)
    let elem := trim seg
    let q := if elem = [] then seg.length else (rtrim seg).length
    if ciEq elem token then .inl true else .inr (rest.drop (q + 1))

theorem hdrHasTokenLoop_run (token : Bytes) (fuel : Nat) (rest : Bytes) :
    hdrHasTokenLoop token fuel rest = (While.run (hdrTurn token) fuel rest).getD false := by
  induction fuel generalizing rest with
  | zero => rfl
  | succ fuel ih =>
      unfold hdrHasTokenLoop While.run hdrTurn
      dsimp only
      by_cases hnil : rest = []
      · rw [if_pos hnil, if_pos hnil]
        rfl
      rw [if_neg hnil, if_neg hnil]
      by_cases hfound : ciEq (trim (rest.takeWhile (· != 44))) token = true
      · rw [if_pos hfound, if_pos hfound]
        rfl
      · rw [if_neg hfound, if_neg hfound]
        exact ih _

theorem hdrTurn_next {token rest rest' : Bytes} (h : hdrTurn token rest = .inr rest') :
    rest'.length < rest.length := by
  unfold hdrTurn at h
  dsimp only at h
  split at h
  · cases h
  rename_i hnil
  have hpos := List.length_pos_iff.mpr hnil
  split at h
  · cases h
  · obtain rfl := Sum.inr.inj h
    rw [List.length_drop]
    omega

theorem hdrHasToken_ends (val token : Bytes) : While.Ends (hdrTurn token) val (hdrHasToken val token) := by
  rw [hdrHasToken, hdrHasTokenLoop_run]
  refine .of_run (fun _ _ => hdrTurn_next) (fun rest hlen => ?_) (Nat.le_refl _)
  rw [hdrTurn, if_pos (List.eq_nil_of_length_eq_zero hlen)]

theorem hdrHasToken_iff (val token : Bytes) (ht : token ≠ []) :
    hdrHasToken val token = true ↔ HasToken val token := by
  refine While.Ends.rule (Q := fun rest b => b = true ↔ HasToken rest token) (fun rest b h => ?_)
    (fun rest rest' b h hb => ?_) (hdrHasToken_ends val token)
  · unfold hdrTurn at h
    dsimp only at h
    split at h
    · obtain rfl := Sum.inl.inj h
      rename_i hnil
      rw [hnil]
      exact iff_of_false Bool.false_ne_true (hasToken_blanks [] token (fun _ hm => absurd hm List.not_mem_nil) ht)
    split at h
    · obtain rfl := Sum.inl.inj h
      rename_i hfound
      refine iff_of_true rfl ?_
      rcases comma_split rest with ⟨hno, hall⟩ | ⟨seg, tail, hseg, hrest, hno⟩
      · rw [hasToken_of_no_comma _ _ hno, ← hall]
        exact hfound
      · rw [hrest, hasToken_comma _ _ _ hno]
        exact .inl (hseg ▸ hfound)
    · cases h
  · unfold hdrTurn at h
    dsimp only at h
    split at h
    · cases h
    split at h
    · cases h
    · obtain rfl := Sum.inr.inj h
      rename_i hfound
      exact hb.trans (hasToken_resume rest token ht (eq_false_of_ne_true hfound))

end Sevent.Http
