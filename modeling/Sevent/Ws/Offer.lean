import Sevent.Http.Tokens
import Sevent.Ws.Handshake

-- What the server reads out of Sec-WebSocket-Extensions: elements between commas, each a name
-- and its parameters between semicolons, against the one list of tokens of ext_token_has.
namespace Sevent.Ws

open Sevent.Http (Msg ciEq isBlank trim ltrim rtrim findHeader ciEq_nil_left trim_blank trim_cons_blank)

-- ---- a value in pieces ----

def HasPiece (sep : Byte → Bool) (v token : Bytes) : Prop :=
  ∃ x ∈ v.splitOnP sep, ciEq (trim x) token = true

theorem hasPiece_single {sep : Byte → Bool} {v : Bytes} (h : ∀ b ∈ v, sep b = false) (token : Bytes) :
    HasPiece sep v token ↔ ciEq (trim v) token = true := by
  simp [HasPiece, List.splitOnP_eq_singleton h]

theorem hasPiece_sep {sep : Byte → Bool} {v : Bytes} (h : ∀ b ∈ v, sep b = false) {s : Byte}
    (hs : sep s = true) (tail token : Bytes) :
    HasPiece sep (v ++ s :: tail) token ↔ ciEq (trim v) token = true ∨ HasPiece sep tail token := by
  simp [HasPiece, List.splitOnP_append_cons_of_forall_mem h s hs tail]

theorem hasPiece_blank {sep : Byte → Bool} {b : Byte} (hb : isBlank b = true) (hs : sep b = false)
    (v token : Bytes) : HasPiece sep (b :: v) token ↔ HasPiece sep v token := by
  obtain ⟨x, rest, hsplit⟩ := List.exists_cons_of_ne_nil (List.splitOnP_ne_nil sep v)
  unfold HasPiece
  rw [List.splitOnP_cons_eq_if_modifyHead, if_neg (by rw [hs]; decide), hsplit, List.modifyHead_cons,
    List.exists_mem_cons_iff, List.exists_mem_cons_iff, trim_cons_blank hb]

-- Cutting at either separator is cutting at one and then at the other.
theorem splitOnP_or (v : Bytes) (p q : Byte → Bool) :
    v.splitOnP (fun b => q b || p b) = (v.splitOnP p).flatMap (List.splitOnP q) := by
  induction v with
  | nil => rfl
  | cons b v ih =>
      obtain ⟨x, rest, hsplit⟩ := List.exists_cons_of_ne_nil (List.splitOnP_ne_nil p v)
      rw [List.splitOnP_cons_eq_if_modifyHead, List.splitOnP_cons_eq_if_modifyHead, ih, hsplit]
      by_cases hp : p b = true
      · rw [if_pos (by rw [hp, Bool.or_true]), if_pos hp]
        rfl
      · rw [if_neg hp, List.modifyHead_cons, List.flatMap_cons, List.flatMap_cons]
        obtain ⟨y, more, hy⟩ := List.exists_cons_of_ne_nil (List.splitOnP_ne_nil q x)
        rw [List.splitOnP_cons_eq_if_modifyHead, hy]
        by_cases hq : q b = true
        · rw [if_pos (by rw [hq, Bool.true_or]), if_pos hq]
          rfl
        · rw [if_neg (by simp [hp, hq]), if_neg hq]
          rfl

-- ---- the scanner ----

def extSep (b : Byte) : Bool := b == 59 || b == 44

theorem hasPiece_nil {token : Bytes} (ht : token ≠ []) : ¬ HasPiece extSep [] token := by
  rw [hasPiece_single (by simp), trim_blank (by simp), ciEq_nil_left token ht]
  decide

theorem hasPiece_front {s : Byte} (hs : extSep s = true) (v : Bytes) {token : Bytes} (ht : token ≠ []) :
    HasPiece extSep (s :: v) token ↔ HasPiece extSep v token := by
  rw [← List.nil_append (s :: v), hasPiece_sep (by simp) hs, trim_blank (by simp),
    ciEq_nil_left token ht]
  simp

theorem hasPiece_skip (v : Bytes) {token : Bytes} (ht : token ≠ []) :
    HasPiece extSep (v.dropWhile fun b => isBlank b || b == 44) token ↔ HasPiece extSep v token := by
  induction v with
  | nil => rfl
  | cons b v ih =>
      by_cases hcomma : b = 44
      · subst hcomma
        rw [List.dropWhile_cons_of_pos rfl, ih, hasPiece_front rfl v ht]
      · by_cases hblank : isBlank b = true
        · have hsep : extSep b = false := by
            rcases Bool.or_eq_true_iff.mp hblank with h | h <;> rw [beq_iff_eq.mp h] <;> decide
          rw [List.dropWhile_cons_of_pos (by rw [hblank]; rfl), ih, hasPiece_blank hblank hsep]
        · rw [List.dropWhile_cons_of_neg (by simp [hblank, hcomma])]

-- The token at the front of a value, and what is behind it.
theorem token_split (v : Bytes) : ∃ x rest, (v.takeWhile fun b => b != 59 && b != 44) = x ∧
    v = x ++ rest ∧ (∀ b ∈ x, extSep b = false) ∧ ∀ s ∈ rest.head?, extSep s = true := by
  refine ⟨_, v.dropWhile fun b => b != 59 && b != 44, rfl, List.takeWhile_append_dropWhile.symm,
    fun b hb => ?_, fun s hs => ?_⟩
  · have htake := List.mem_takeWhile_imp hb
    rw [Bool.and_eq_true, bne_iff_ne, bne_iff_ne] at htake
    simp [extSep, htake]
  · have hdrop := List.head?_dropWhile_not (fun b => b != 59 && b != 44) v
    rw [Option.mem_def.mp hs] at hdrop
    rw [extSep, ← Bool.not_eq_false', Bool.not_or]
    exact hdrop

theorem rtrim_eq_trim {x : Bytes} (h : ∀ b ∈ x.head?, isBlank b = false) : rtrim x = trim x := by
  unfold trim ltrim
  cases x with
  | nil => rfl
  | cons b x => rw [List.dropWhile_cons_of_neg (by rw [h b rfl]; decide)]

theorem extTokenHasLoop_iff {token : Bytes} (ht : token ≠ []) (fuel : Nat) (v : Bytes)
    (hfuel : v.length < fuel) : extTokenHasLoop token fuel v = true ↔ HasPiece extSep v token := by
  induction fuel generalizing v with
  | zero => exact absurd hfuel (Nat.not_lt_zero _)
  | succ fuel ih =>
      rw [extTokenHasLoop]
      by_cases hv : v = []
      · subst hv
        rw [if_pos rfl]
        simpa using hasPiece_nil ht
      · rw [if_neg hv]
        dsimp only
        rw [← hasPiece_skip v ht]
        have hless : (v.dropWhile fun b => isBlank b || b == 44).length ≤ v.length :=
          (List.dropWhile_suffix _).length_le
        have hpos := List.length_pos_iff.mpr hv
        have hfirst : ∀ b ∈ (v.dropWhile fun b => isBlank b || b == 44).head?,
            isBlank b = false ∧ b ≠ 44 := by
          intro b hb
          have hdrop := List.head?_dropWhile_not (fun b => isBlank b || b == 44) v
          rw [Option.mem_def.mp hb] at hdrop
          simpa using hdrop
        generalize v.dropWhile (fun b => isBlank b || b == 44) = w at *
        obtain ⟨x, rest, hx, rfl, hinside, hstop⟩ := token_split w
        rw [hx, List.drop_left, rtrim_eq_trim fun b hb => (hfirst b (by
          rw [List.head?_append, Option.mem_def.mp hb]
          rfl)).1]
        rw [List.length_append] at hless
        cases rest with
        | nil =>
            rw [List.append_nil, hasPiece_single hinside]
            have hend : ¬ extTokenHasLoop token fuel [] = true := by
              rw [ih [] (by simp only [List.length_nil]; omega)]
              exact hasPiece_nil ht
            by_cases hfound : tokenEq (trim x) token = true
            · rw [if_pos hfound]
              exact iff_of_true rfl hfound
            · rw [if_neg hfound]
              exact iff_of_false hend hfound
        | cons s tail =>
            have hsep := hstop s rfl
            rw [List.length_cons] at hless
            have hnext : extTokenHasLoop token fuel (if s = 59 then tail else s :: tail) = true ↔
                HasPiece extSep tail token := by
              split
              · exact ih tail (by omega)
              · rename_i hs
                -- the comma is still there in the next turn, but the token before it is not empty
                have hcomma : s = 44 := by simpa [extSep, hs] using hsep
                have hlen : 0 < x.length := by
                  refine List.length_pos_iff.mpr ?_
                  rintro rfl
                  exact (hfirst s rfl).2 hcomma
                rw [ih (s :: tail) (by rw [List.length_cons]; omega), hasPiece_front hsep tail ht]
            rw [hasPiece_sep hinside hsep, ← hnext]
            simp only [List.head?_cons, Option.some.injEq, List.drop_one, List.tail_cons]
            by_cases hfound : tokenEq (trim x) token = true
            · rw [if_pos hfound]
              exact iff_of_true rfl (.inl hfound)
            · rw [if_neg hfound]
              exact (or_iff_right hfound).symm

theorem extTokenHas_iff {token : Bytes} (ht : token ≠ []) (v : Bytes) : extTokenHas v token = true ↔
    ∃ elem ∈ v.splitOn 44, ∃ x ∈ elem.splitOn 59, ciEq (trim x) token = true := by
  have hsplit : v.splitOnP extSep = (v.splitOn 44).flatMap (List.splitOn 59) :=
    splitOnP_or v (· == 44) (· == 59)
  rw [extTokenHas, extTokenHasLoop_iff ht _ v (Nat.lt_succ_self _), HasPiece, hsplit]
  simp only [List.mem_flatMap]
  constructor
  · rintro ⟨x, ⟨elem, helem, hx⟩, htoken⟩
    exact ⟨elem, helem, x, hx, htoken⟩
  · rintro ⟨elem, helem, x, hx, htoken⟩
    exact ⟨x, ⟨elem, helem, hx⟩, htoken⟩

-- ---- names and parameters ----

-- The part of an element before its first semicolon.
def extName (elem : Bytes) : Bytes := trim (elem.takeWhile (· != 59))

def extParams (elem : Bytes) : List Bytes := (elem.splitOn 59).tail

def paramName (param : Bytes) : Bytes := trim (param.takeWhile (· != 61))

def Names (v ext : Bytes) : Prop := ∃ elem ∈ v.splitOn 44, ciEq (extName elem) ext = true

def HasParam (v ext param : Bytes) : Prop :=
  ∃ elem ∈ v.splitOn 44, ciEq (extName elem) ext = true ∧
    ∃ p ∈ extParams elem, ciEq (paramName p) param = true

-- A parameter of some extension, given without a value.
def BareParam (v param : Bytes) : Prop :=
  ∃ elem ∈ v.splitOn 44, ∃ p ∈ extParams elem, ciEq (trim p) param = true

theorem splitOn_name (elem : Bytes) : elem.splitOn 59 = elem.takeWhile (· != 59) :: extParams elem := by
  unfold extParams
  rw [List.splitOn_eq_splitOnP]
  induction elem with
  | nil => rfl
  | cons b elem ih =>
      rw [List.splitOnP_cons_eq_if_modifyHead]
      by_cases hb : b = 59
      · subst hb
        rfl
      · rw [if_neg (by simpa using hb), List.takeWhile_cons_of_pos (by simpa using hb), ih]
        rfl

theorem extTokenHas_names (token : Bytes) (ht : token ≠ []) (v : Bytes) :
    extTokenHas v token = true ↔ Names v token ∨ BareParam v token := by
  rw [extTokenHas_iff ht]
  constructor
  · rintro ⟨elem, helem, x, hx, htoken⟩
    rw [splitOn_name] at hx
    rcases List.mem_cons.mp hx with rfl | hx
    · exact .inl ⟨elem, helem, htoken⟩
    · exact .inr ⟨elem, helem, x, hx, htoken⟩
  · rintro (⟨elem, helem, htoken⟩ | ⟨elem, helem, x, hx, htoken⟩)
    · exact ⟨elem, helem, _, by rw [splitOn_name]; exact List.mem_cons_self, htoken⟩
    · exact ⟨elem, helem, x, by rw [splitOn_name]; exact List.mem_cons_of_mem _ hx, htoken⟩

structure RecognisedByName (v : Bytes) (req : HandshakeRequest) : Prop where
  offered : req.deflateOffered = true ↔ Names v pmd
  noContext : req.clientNoContextTakeover = true → HasParam v pmd clientNoCtx

theorem offer_by_name_iff {buf v : Bytes} {m : Msg} (hpos : 0 < (parseRequest buf).1)
    (hok : (parseRequest buf).2.status = 0) (hparse : Http.parse buf = .complete m)
    (hv : findHeader buf m (ascii "sec-websocket-extensions") = some v) :
    RecognisedByName v (parseRequest buf).2 ↔
      (BareParam v pmd → Names v pmd) ∧
        (Names v pmd → Names v clientNoCtx ∨ BareParam v clientNoCtx → HasParam v pmd clientNoCtx) := by
  obtain ⟨m', hparse', hreq⟩ := parseRequest_complete hpos
  cases hparse.symm.trans hparse'
  rw [hreq] at hok ⊢
  obtain ⟨-, -, -, -, hoffered, hnct⟩ := checkRequest_taken hok
  rw [hv, Option.any_some] at hoffered hnct
  have hpmd := extTokenHas_names pmd (by decide) v
  have hctx := extTokenHas_names clientNoCtx (by decide) v
  rw [← hoffered] at hpmd
  dsimp only
  constructor
  · rintro ⟨hname, hparam⟩
    refine ⟨fun hbare => hname.mp (hpmd.mpr (.inr hbare)), fun hn htoken => hparam ?_⟩
    rw [hnct, Bool.and_eq_true]
    exact ⟨hname.mpr hn, hctx.mpr htoken⟩
  · rintro ⟨hbare, hparam⟩
    have hname : (checkRequest buf m).deflateOffered = true ↔ Names v pmd :=
      hpmd.trans ⟨fun h => h.elim id hbare, .inl⟩
    refine ⟨hname, fun h => ?_⟩
    rw [hnct, Bool.and_eq_true] at h
    exact hparam (hname.mp h.1) (hctx.mp h.2)

def offerWith (ext : Bytes) : Bytes :=
  ascii "GET / HTTP/1.1\r\nUpgrade: websocket\r\nConnection: Upgrade\r\nSec-WebSocket-Version: 13\r\n" ++
    ascii "Sec-WebSocket-Key: dGhlIHNhbXBsZSBub25jZQ==\r\nSec-WebSocket-Extensions: " ++ ext ++
    ascii "\r\n\r\n"

-- The message of such a request whose header has `n` bytes.
def offerMsg (n : Nat) : Msg :=
  { start := { isResponse := false, method := .get, methodRef := some ⟨0, 3⟩, target := some ⟨4, 1⟩
               statusCode := 0, keepAlive := true }
    upgrade := true, keepAlive := true, contentLength := 0, body := ⟨159 + n, 0⟩
    headers := ⟨16, 141 + n⟩ }

theorem offer_by_name_plain :
    RecognisedByName pmd (parseRequest (offerWith pmd)).2 ↔
      (BareParam pmd pmd → Names pmd pmd) ∧
        (Names pmd pmd → Names pmd clientNoCtx ∨ BareParam pmd clientNoCtx →
          HasParam pmd pmd clientNoCtx) := by
  have hreq : (parseRequest (offerWith pmd)).1 = 177 ∧ (parseRequest (offerWith pmd)).2.status = 0 := by
    decide +kernel
  have hparse : Http.parse (offerWith pmd) = .complete (offerMsg 18) := by decide +kernel
  exact offer_by_name_iff (by rw [hreq.1]; decide) hreq.2 hparse (by decide +kernel)

def foreignParam : Bytes := ascii "x-foo; permessage-deflate"

-- Compression is negotiated although no element offers it.
theorem foreign_parameter_enables_deflate :
    (parseRequest (offerWith foreignParam)).1 = 184 ∧
      (parseRequest (offerWith foreignParam)).2.status = 0 ∧
      Http.parse (offerWith foreignParam) = .complete (offerMsg 25) ∧
      findHeader (offerWith foreignParam) (offerMsg 25) (ascii "sec-websocket-extensions") =
        some foreignParam ∧
      ¬ RecognisedByName foreignParam (parseRequest (offerWith foreignParam)).2 := by
  have hoffered : (parseRequest (offerWith foreignParam)).2.deflateOffered = true := by decide +kernel
  refine ⟨by decide +kernel, by decide +kernel, by decide +kernel, by decide +kernel, fun h => ?_⟩
  have hname : ¬ Names foreignParam pmd := by
    unfold Names
    decide
  exact hname (h.offered.mp hoffered)

end Sevent.Ws
