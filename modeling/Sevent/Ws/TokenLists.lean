import Sevent.Http.Framing
import Sevent.Ws.Handshake

-- The two scanners for a token in a comma-separated value: hdr_has_token of the HTTP layer and
-- token_list_has of the handshake.
namespace Sevent.Ws

open Sevent.Http (HasToken hdrHasToken hdrTurn isBlank ciEq trim ltrim rtrim findHeader findHeaderIn)

-- ---- token_list_has ----

-- One turn of the loop over what is left of the value.
def listTurn (token p : Bytes) : Bool ⊕ Bytes :=
  if p = [] then .inl false
  else
    let p := p.dropWhile isBlank
    let elem := p.takeWhile (· != 44)
    if tokenEq (rtrim elem) token then .inl true else .inr ((p.drop elem.length).drop 1)

theorem tokenListHasLoop_run (token : Bytes) (fuel : Nat) (p : Bytes) :
    tokenListHasLoop token fuel p = (While.run (listTurn token) fuel p).getD false := by
  induction fuel generalizing p with
  | zero => rfl
  | succ fuel ih =>
      unfold tokenListHasLoop While.run listTurn
      dsimp only
      by_cases hnil : p = []
      · rw [if_pos hnil, if_pos hnil]
        rfl
      rw [if_neg hnil, if_neg hnil]
      by_cases hfound : tokenEq (rtrim ((p.dropWhile isBlank).takeWhile (· != 44))) token = true
      · rw [if_pos hfound, if_pos hfound]
        rfl
      · rw [if_neg hfound, if_neg hfound]
        exact ih _

theorem listTurn_next {token p p' : Bytes} (h : listTurn token p = .inr p') : p'.length < p.length := by
  unfold listTurn at h
  dsimp only at h
  split at h
  · cases h
  rename_i hnil
  have hpos := List.length_pos_iff.mpr hnil
  have hle := (List.dropWhile_suffix (l := p) isBlank).length_le
  split at h
  · cases h
  · obtain rfl := Sum.inr.inj h
    rw [List.length_drop, List.length_drop]
    omega

theorem tokenListHas_ends (val token : Bytes) : While.Ends (listTurn token) val (tokenListHas val token) := by
  rw [tokenListHas, tokenListHasLoop_run]
  refine .of_run (fun _ _ => listTurn_next) (fun p hlen => ?_) (Nat.le_refl _)
  rw [listTurn, if_pos (List.eq_nil_of_length_eq_zero hlen)]

-- ---- blanks in front ----

theorem not_comma_of_blank {b : Byte} (h : isBlank b = true) : (b == 44) = false := by
  rw [beq_eq_false_iff_ne]
  rintro rfl
  cases h

theorem hasToken_blank {b : Byte} (h : isBlank b = true) (v token : Bytes) :
    HasToken (b :: v) token ↔ HasToken v token := by
  obtain ⟨x, rest, hsplit⟩ := List.exists_cons_of_ne_nil (List.splitOn_ne_nil 44 v)
  unfold HasToken
  rw [List.splitOn_cons_eq_if_modifyHead, if_neg (by rw [not_comma_of_blank h]; decide), hsplit,
    List.modifyHead_cons, List.exists_mem_cons_iff, List.exists_mem_cons_iff, Http.trim_cons_blank h]

theorem hasToken_dropBlanks (v token : Bytes) : HasToken (v.dropWhile isBlank) token ↔ HasToken v token := by
  induction v with
  | nil => exact Iff.rfl
  | cons b v ih =>
      by_cases hb : isBlank b = true
      · rw [List.dropWhile_cons_of_pos hb, hasToken_blank hb]
        exact ih
      · rw [List.dropWhile_cons_of_neg hb]

-- Without blanks in front the element ends are all that is trimmed.
theorem rtrim_first (v : Bytes) :
    rtrim ((v.dropWhile isBlank).takeWhile (· != 44)) = trim ((v.dropWhile isBlank).takeWhile (· != 44)) := by
  have hhead : ltrim ((v.dropWhile isBlank).takeWhile (· != 44)) = (v.dropWhile isBlank).takeWhile (· != 44) := by
    cases hv : v.dropWhile isBlank with
    | nil => rfl
    | cons b rest =>
        have hb : ¬ isBlank b = true := by
          have hne : v.dropWhile isBlank ≠ [] := by rw [hv]; exact List.cons_ne_nil b rest
          have hnot := List.head_dropWhile_not isBlank hne
          simp only [hv, List.head_cons] at hnot
          exact ne_true_of_eq_false hnot
        by_cases hcomma : b = 44
        · rw [hcomma]
          rfl
        · have htake : (b :: rest).takeWhile (· != 44) = b :: rest.takeWhile (· != 44) :=
            List.takeWhile_cons_of_pos (by rw [bne_iff_ne]; exact hcomma)
          rw [htake, ltrim, List.dropWhile_cons_of_neg hb]
  rw [trim, hhead]

-- A turn either finds the token or leaves a value that has it iff the old one had.
theorem hasToken_turn (p token : Bytes)
    (hno : tokenEq (rtrim ((p.dropWhile isBlank).takeWhile (· != 44))) token = false) (ht : token ≠ []) :
    HasToken (((p.dropWhile isBlank).drop ((p.dropWhile isBlank).takeWhile (· != 44)).length).drop 1) token ↔
      HasToken p token := by
  rw [← hasToken_dropBlanks p]
  have hno : ciEq (trim ((p.dropWhile isBlank).takeWhile (· != 44))) token = false := rtrim_first p ▸ hno
  generalize p.dropWhile isBlank = rest at hno ⊢
  rcases Http.comma_split rest with ⟨hfree, hall⟩ | ⟨seg, tail, hseg, hrest, hfree⟩
  · rw [hall] at hno ⊢
    rw [Http.hasToken_of_no_comma rest token hfree, hno, List.drop_length, List.drop_nil]
    exact iff_of_false (Http.hasToken_blanks [] token (fun _ hm => absurd hm List.not_mem_nil) ht) Bool.false_ne_true
  · rw [hseg] at hno ⊢
    rw [hrest, Http.hasToken_comma seg tail token hfree, hno, List.drop_left, List.drop_one, List.tail_cons]
    exact ⟨.inr, fun h => h.resolve_left Bool.false_ne_true⟩

theorem tokenListHas_iff (val token : Bytes) (ht : token ≠ []) :
    tokenListHas val token = true ↔ HasToken val token := by
  refine While.Ends.rule (Q := fun p b => b = true ↔ HasToken p token) (fun p b h => ?_)
    (fun p p' b h hb => ?_) (tokenListHas_ends val token)
  · unfold listTurn at h
    dsimp only at h
    split at h
    · obtain rfl := Sum.inl.inj h
      rename_i hnil
      rw [hnil]
      exact iff_of_false Bool.false_ne_true
        (Http.hasToken_blanks [] token (fun _ hm => absurd hm List.not_mem_nil) ht)
    split at h
    · obtain rfl := Sum.inl.inj h
      rename_i hfound
      rw [← hasToken_dropBlanks p]
      have hfound : ciEq (trim ((p.dropWhile isBlank).takeWhile (· != 44))) token = true := rtrim_first p ▸ hfound
      refine iff_of_true rfl ?_
      generalize p.dropWhile isBlank = rest at hfound ⊢
      rcases Http.comma_split rest with ⟨hfree, hall⟩ | ⟨seg, tail, hseg, hrest, hfree⟩
      · rw [Http.hasToken_of_no_comma rest token hfree, ← hall]
        exact hfound
      · rw [hrest, Http.hasToken_comma seg tail token hfree]
        exact .inl (hseg ▸ hfound)
    · cases h
  · unfold listTurn at h
    dsimp only at h
    split at h
    · cases h
    split at h
    · cases h
    · obtain rfl := Sum.inr.inj h
      rename_i hfound
      exact hb.trans (hasToken_turn p token (eq_false_of_ne_true hfound) ht)

-- ---- the request that both layers judge ----

theorem parseFields_taken {block : Bytes} {keepAlive : Bool} {f : Http.Fields}
    (h : Http.parseFields block keepAlive = some f) :
    f.upgrade = ((findHeaderIn block (ascii "connection")).any (hdrHasToken · (ascii "upgrade")) &&
      (findHeaderIn block (ascii "upgrade")).isSome) := by
  unfold Http.parseFields at h
  dsimp only at h
  split at h
  · cases h
  split at h
  · cases h
  · obtain rfl := Option.some.inj h
    rfl

-- The checks of the fields that the HTTP layer looks at as well.
theorem checkRequest_upgrade {buf : Bytes} {m : Http.Msg} (h : (checkRequest buf m).status = 0) :
    (findHeader buf m (ascii "upgrade")).isSome = true ∧
      (findHeader buf m (ascii "connection")).any (tokenListHas · (ascii "upgrade")) = true := by
  unfold checkRequest at h
  split at h
  · cases h
  split at h
  · cases h
  rename_i hupgrade
  split at h
  · cases h
  rename_i hconnection
  have hupgrade : (findHeader buf m (ascii "upgrade")).any (tokenEq · (ascii "websocket")) = true := by
    simpa using hupgrade
  refine ⟨?_, by simpa using hconnection⟩
  cases hfind : findHeader buf m (ascii "upgrade") with
  | none =>
      rw [hfind] at hupgrade
      cases hupgrade
  | some v => rfl

theorem parseRequest_taken {buf : Bytes} (h : (parseRequest buf).2.status = 0) :
    ∃ m, Http.parse buf = .complete m ∧ (checkRequest buf m).status = 0 := by
  unfold parseRequest at h
  split at h
  · cases h
  split at h
  · cases h
  · cases h
  · rename_i m hparse
    split at h
    · cases h
    · exact ⟨m, hparse, h⟩

-- Both scanners end, and say whether some element is the token; so a request that the handshake
-- takes is an upgrade for the HTTP layer.
theorem scanners_agree :
    (∀ val token : Bytes, token ≠ [] →
      While.Ends (hdrTurn token) val (hdrHasToken val token) ∧
      While.Ends (listTurn token) val (tokenListHas val token) ∧
      (hdrHasToken val token = true ↔ HasToken val token) ∧
      (tokenListHas val token = true ↔ HasToken val token)) ∧
    ∀ buf, (parseRequest buf).2.status = 0 → ∃ m, Http.parse buf = .complete m ∧ m.upgrade = true := by
  refine ⟨fun val token ht => ⟨Http.hdrHasToken_ends val token, tokenListHas_ends val token,
    Http.hdrHasToken_iff val token ht, tokenListHas_iff val token ht⟩, fun buf h => ?_⟩
  obtain ⟨m, hparse, hstatus⟩ := parseRequest_taken h
  obtain ⟨hupgrade, hconnection⟩ := checkRequest_upgrade hstatus
  obtain ⟨hdrEnd, lineEnd, f, -, -, -, hfields, -, hm⟩ := Http.parse_complete hparse
  have hblock : ∀ name, findHeader buf m name = findHeaderIn ((Http.headerSlice hdrEnd lineEnd).of buf) name := by
    intro name
    rw [findHeader, hm]
  have htoken : ascii "upgrade" ≠ [] := by decide
  have hsame : ∀ v, hdrHasToken v (ascii "upgrade") = tokenListHas v (ascii "upgrade") := fun v =>
    Bool.eq_iff_iff.mpr ((Http.hdrHasToken_iff v _ htoken).trans (tokenListHas_iff v _ htoken).symm)
  rw [hblock] at hupgrade hconnection
  refine ⟨m, hparse, ?_⟩
  rw [hm, parseFields_taken hfields, hupgrade, Bool.and_true]
  simpa only [hsame] using hconnection

-- Blanks before a comma, an empty element, and the token in capitals.
theorem scanners_agree_mixed :
    hdrHasToken (ascii "keep-alive \t,, \tUPGRADE ") (ascii "upgrade") = true ∧
      (tokenListHas (ascii "keep-alive \t,, \tUPGRADE ") (ascii "upgrade") = true ↔
        HasToken (ascii "keep-alive \t,, \tUPGRADE ") (ascii "upgrade")) := by
  exact ⟨by decide, (scanners_agree.1 _ (ascii "upgrade") (by decide)).2.2.2⟩

end Sevent.Ws
