import Sevent.Http.Tokens

namespace Sevent.Http

-- The values of every field of that name, in the order of the header block.
def headerValues (block name : Bytes) : List Bytes :=
  ((headerLines block).filterMap headerField).filterMap fun f =>
    if ciEq f.1 name then some f.2 else none

-- What a Content-Length value denotes: one or more digits.
def decimal (v : Bytes) : Option Nat :=
  if v ≠ [] ∧ v.all isDigit = true then some (decimalValue v) else none

theorem findHeaderNthIn_eq (name : Bytes) (lines : List Bytes) (nth : Nat) :
    findHeaderNthIn name lines nth =
      ((lines.filterMap headerField).filterMap fun f =>
        if ciEq f.1 name then some f.2 else none)[nth]? := by
  induction lines generalizing nth with
  | nil => rfl
  | cons line rest ih =>
      rw [findHeaderNthIn]
      cases hf : headerField line with
      | none => simp [hf, ih]
      | some f =>
          by_cases hn : ciEq f.1 name = true
          · cases nth <;> simp [hf, hn, ih]
          · simp [hf, hn, ih]

theorem findHeaderNth_eq (block name : Bytes) (nth : Nat) :
    findHeaderNth block name nth = (headerValues block name)[nth]? :=
  findHeaderNthIn_eq name (headerLines block) nth

theorem findHeaderIn_eq (block name : Bytes) :
    findHeaderIn block name = (headerValues block name).head? := by
  rw [findHeaderIn, findHeaderNth_eq, List.head?_eq_getElem?]

theorem isDigit_le {b : Byte} (h : isDigit b = true) : b.toNat - 48 ≤ 9 := by
  simp only [isDigit, Bool.and_eq_true, decide_eq_true_eq] at h
  have hle : b.toNat ≤ 57 := h.2
  omega

theorem le_foldl_decimal (v : Bytes) (cl : Nat) :
    cl ≤ v.foldl (fun n b => n * 10 + (b.toNat - 48)) cl := by
  induction v generalizing cl with
  | nil => exact Nat.le_refl cl
  | cons b rest ih =>
      calc cl ≤ cl * 10 + (b.toNat - 48) := by omega
        _ ≤ _ := ih _

-- The loop reads digits only and stops where the value would leave size_t.
theorem parseContentLength_eq_some (v : Bytes) (cl n : Nat) (hcl : cl ≤ sizeMax) :
    parseContentLength v cl = some n ↔
      v.all isDigit = true ∧ v.foldl (fun n b => n * 10 + (b.toNat - 48)) cl = n ∧
        n ≤ sizeMax := by
  induction v generalizing cl with
  | nil =>
      simp only [parseContentLength, List.all_nil, List.foldl_nil, Option.some.injEq, true_and]
      constructor
      · rintro rfl
        exact ⟨rfl, hcl⟩
      · exact fun h => h.1
  | cons b rest ih =>
      rw [parseContentLength]
      by_cases hb : isDigit b = true
      · have hdigit := isDigit_le hb
        simp only [hb, Bool.not_true, Bool.false_eq_true, if_false, List.all_cons, Bool.true_and,
          List.foldl_cons]
        by_cases hover : cl > (sizeMax - (b.toNat - 48)) / 10
        · have hbig : sizeMax < cl * 10 + (b.toNat - 48) := by
            unfold sizeMax at hover ⊢
            omega
          have hgrow := le_foldl_decimal rest (cl * 10 + (b.toNat - 48))
          simp only [hover, if_true, reduceCtorEq, false_iff]
          rintro ⟨-, rfl, hle⟩
          omega
        · rw [if_neg hover]
          refine ih _ ?_
          unfold sizeMax at hover ⊢
          omega
      · simp [hb]

theorem decimal_of_parsed {v : Bytes} {n : Nat} (h : parseContentLength v 0 = some n) :
    decimal v = some n ↔ v ≠ [] := by
  obtain ⟨hall, hval, -⟩ := (parseContentLength_eq_some v 0 n (Nat.zero_le _)).mp h
  simp [decimal, hall, decimalValue, hval]

-- What an accepted header block says about its first two lengths.
theorem contentLength_eq_some {block : Bytes} {cl : Nat} (h : contentLength block = some cl) :
    ∀ v ∈ (headerValues block (ascii "content-length")).take 2,
      parseContentLength v 0 = some cl := by
  unfold contentLength at h
  rw [findHeaderIn_eq, findHeaderNth_eq] at h
  cases hvals : headerValues block (ascii "content-length") with
  | nil => simp
  | cons v rest =>
      rw [hvals] at h
      simp only [List.head?_cons] at h
      cases hv : parseContentLength v 0 with
      | none => simp [hv] at h
      | some cl1 =>
          cases rest with
          | nil =>
              have hcl : cl1 = cl := by simpa [hv] using h
              simp [hv, hcl]
          | cons v2 rest =>
              cases hv2 : parseContentLength v2 0 with
              | none => simp [hv, hv2] at h
              | some cl2 =>
                  simp only [hv, List.getElem?_cons_succ, List.getElem?_cons_zero, hv2, ne_eq,
                    ite_not] at h
                  split at h
                  · next heq =>
                    cases h
                    simp [hv, hv2, heq]
                  · cases h

theorem parseFields_eq_some {block : Bytes} {ka : Bool} {f : Fields}
    (h : parseFields block ka = some f) :
    contentLength block = some f.contentLength ∧
      (∀ v ∈ (headerValues block (ascii "transfer-encoding")).take 1,
        ¬ HasToken v (ascii "chunked")) ∧
      (f.keepAlive = true ↔ ka = true ∧
        ∀ v ∈ (headerValues block (ascii "connection")).take 1, ¬ HasToken v (ascii "close")) := by
  unfold parseFields at h
  simp only [findHeaderIn_eq] at h
  cases hcl : contentLength block with
  | none => simp [hcl] at h
  | some cl =>
      simp only [hcl] at h
      split at h
      · cases h
      · next hte =>
        cases h
        refine ⟨rfl, ?_, ?_⟩
        · intro v hv ht
          apply hte
          rw [← hdrHasToken_iff v _ (by decide)] at ht
          cases hvals : headerValues block (ascii "transfer-encoding") with
          | nil => simp [hvals] at hv
          | cons w rest =>
              have hw : v = w := by simpa [hvals] using hv
              simpa [← hw] using ht
        · cases hvals : headerValues block (ascii "connection") with
          | nil => simp
          | cons w rest => simp [← hdrHasToken_iff w (ascii "close") (by decide)]

-- The first line and the header block of a buffer that holds CRLFCRLF.
def firstLine (buf : Bytes) : Bytes := stripCr (buf.take ((memchr 10 buf).getD 0))

def headerBlock (buf : Bytes) : Bytes :=
  (headerSlice ((findHdrEnd buf).getD 0) ((memchr 10 buf).getD 0)).of buf

-- Everything an accepted message says about its bytes.
theorem parse_complete {buf : Bytes} {m : Msg} (h : parse buf = .complete m) :
    ∃ hdrEnd lineEnd f, findHdrEnd buf = some hdrEnd ∧ memchr 10 buf = some lineEnd ∧
      parseStartLine (stripCr (buf.take lineEnd)) = some m.start ∧
      parseFields ((headerSlice hdrEnd lineEnd).of buf) m.start.keepAlive = some f ∧
      f.contentLength ≤ buf.length - (hdrEnd + 4) ∧
      m = { start := m.start, upgrade := f.upgrade, keepAlive := f.keepAlive
            contentLength := f.contentLength, body := ⟨hdrEnd + 4, f.contentLength⟩
            headers := headerSlice hdrEnd lineEnd } := by
  unfold parse at h
  cases hend : findHdrEnd buf with
  | none => simp [hend] at h
  | some hdrEnd =>
      cases hline : memchr 10 buf with
      | none => simp [hend, hline] at h
      | some lineEnd =>
          simp only [hend, hline] at h
          cases hstart : parseStartLine (stripCr (buf.take lineEnd)) with
          | none => simp [hstart] at h
          | some start =>
              simp only [hstart] at h
              cases hf : parseFields ((headerSlice hdrEnd lineEnd).of buf) start.keepAlive with
              | none => simp [hf] at h
              | some f =>
                  simp only [hf] at h
                  split at h
                  · cases h
                  · next hlen =>
                    cases h
                    exact ⟨hdrEnd, lineEnd, f, rfl, rfl, hstart, hf, Nat.not_lt.mp hlen, rfl⟩

-- One meaning for all parties that frame this message.
structure Unambiguous (buf : Bytes) (m : Msg) : Prop where
  lengths : ∀ v ∈ headerValues (m.headers.of buf) (ascii "content-length"),
    decimal v = some m.contentLength
  encodings : ∀ v ∈ headerValues (m.headers.of buf) (ascii "transfer-encoding"),
    ¬ HasToken v (ascii "chunked")
  close : ∀ v ∈ headerValues (m.headers.of buf) (ascii "connection"),
    HasToken v (ascii "close") → m.keepAlive = false

-- The occurrences the parser does not look at add nothing, and no length is empty.
structure OthersAgree (buf : Bytes) : Prop where
  nonempty : ∀ v ∈ headerValues (headerBlock buf) (ascii "content-length"), v ≠ []
  lengths : ∀ v ∈ (headerValues (headerBlock buf) (ascii "content-length")).drop 2,
    decimal v = ((headerValues (headerBlock buf) (ascii "content-length")).head?.bind decimal)
  encodings : ∀ v ∈ (headerValues (headerBlock buf) (ascii "transfer-encoding")).drop 1,
    ¬ HasToken v (ascii "chunked")
  close : ∀ v ∈ (headerValues (headerBlock buf) (ascii "connection")).drop 1,
    HasToken v (ascii "close") →
      (parseStartLine (firstLine buf)).any (·.keepAlive) = false ∨
        ∃ w ∈ (headerValues (headerBlock buf) (ascii "connection")).take 1,
          HasToken w (ascii "close")

instance (val token : Bytes) : Decidable (HasToken val token) :=
  inferInstanceAs (Decidable (∃ elem ∈ val.splitOn 44, ciEq (trim elem) token = true))

private theorem mem_take_or_drop {α : Type*} (n : Nat) {l : List α} {a : α} (h : a ∈ l) :
    a ∈ l.take n ∨ a ∈ l.drop n := by
  rwa [← List.mem_append, List.take_append_drop]

theorem parse_unambiguous_iff (buf : Bytes) (m : Msg) (h : parse buf = .complete m) :
    Unambiguous buf m ↔ OthersAgree buf := by
  obtain ⟨hdrEnd, lineEnd, f, hend, hline, hstart, hf, -, hm⟩ := parse_complete h
  obtain ⟨hcl, hte, hka⟩ := parseFields_eq_some hf
  have hfirst := contentLength_eq_some hcl
  have hblock : m.headers.of buf = headerBlock buf := by
    rw [hm, headerBlock, hend, hline]
    rfl
  have hkeep : (parseStartLine (firstLine buf)).any (·.keepAlive) = m.start.keepAlive := by
    rw [firstLine, hline, Option.getD_some, hstart]
    rfl
  have hmcl : m.contentLength = f.contentLength := by rw [hm]
  have hmka : m.keepAlive = f.keepAlive := by rw [hm]
  rw [show (headerSlice hdrEnd lineEnd).of buf = headerBlock buf by rw [← hblock, hm]] at hfirst hte hka
  constructor
  · rintro ⟨hl, he, hc⟩
    rw [hblock] at hl he hc
    refine ⟨?_, ?_, fun v hv => he v (List.mem_of_mem_drop hv), ?_⟩
    · intro v hv hnil
      simpa [hnil, decimal] using hl v hv
    · intro v hv
      cases hvals : headerValues (headerBlock buf) (ascii "content-length") with
      | nil => simp [hvals] at hv
      | cons w rest =>
          have hw := hl w (by simp [hvals])
          rw [hl v (List.mem_of_mem_drop hv)]
          simp [hw]
    · intro v hv ht
      have hoff := hc v (List.mem_of_mem_drop hv) ht
      rw [hkeep]
      by_contra hnot
      push Not at hnot
      have hon : f.keepAlive = true := hka.mpr ⟨by simpa using hnot.1, hnot.2⟩
      rw [hmka, hon] at hoff
      cases hoff
  · rintro ⟨hn, hl, he, hc⟩
    have hfront : ∀ v ∈ (headerValues (headerBlock buf) (ascii "content-length")).take 2,
        decimal v = some f.contentLength := fun v hv =>
      (decimal_of_parsed (hfirst v hv)).mpr (hn v (List.mem_of_mem_take hv))
    refine ⟨?_, ?_, ?_⟩
    · rw [hblock, hmcl]
      intro v hv
      rcases mem_take_or_drop 2 hv with hfr | hlater
      · exact hfront v hfr
      · rw [hl v hlater]
        cases hvals : headerValues (headerBlock buf) (ascii "content-length") with
        | nil => simp [hvals] at hv
        | cons w rest => exact hfront w (by simp [hvals])
    · rw [hblock]
      intro v hv
      rcases mem_take_or_drop 1 hv with hfr | hlater
      · exact hte v hfr
      · exact he v hlater
    · rw [hblock, hmka]
      intro v hv ht
      by_contra hon
      obtain ⟨hstartKa, hnone⟩ := hka.mp (by simpa using hon)
      rcases mem_take_or_drop 1 hv with hfr | hlater
      · exact hnone v hfr ht
      · rcases hc v hlater ht with hoff | ⟨w, hw, hwt⟩
        · rw [hkeep, hstartKa] at hoff
          cases hoff
        · exact hnone w hw hwt

-- Two lengths that agree, a closing connection: nothing is left to another reading.
def repeatedLength : Bytes :=
  ascii "POST / HTTP/1.1\r\nContent-Length: 1\r\nConnection: close\r\nContent-Length: 01\r\n\r\nA"

def repeatedLengthMsg : Msg :=
  { start :=
      { isResponse := false, method := .post, methodRef := some ⟨0, 4⟩, target := some ⟨5, 1⟩
        statusCode := 0, keepAlive := true }
    upgrade := false, keepAlive := false, contentLength := 1, body := ⟨77, 1⟩
    headers := ⟨17, 58⟩ }

theorem repeatedLength_unambiguous :
    parse repeatedLength = .complete repeatedLengthMsg ∧
      Unambiguous repeatedLength repeatedLengthMsg := by
  have hparse : parse repeatedLength = .complete repeatedLengthMsg := by decide
  refine ⟨hparse, (parse_unambiguous_iff _ _ hparse).mpr ⟨?_, ?_, ?_, ?_⟩⟩ <;> decide

-- A third length is never compared: the body ends after one byte here and after two bytes
-- for a reader that takes the last length.
def conflictingLength : Bytes :=
  ascii ("POST / HTTP/1.1\r\nContent-Length: 1\r\nContent-Length: 1\r\n" ++
    "Content-Length: 2\r\n\r\nAB")

theorem conflictingLength_accepted :
    ∃ m, parse conflictingLength = .complete m ∧ m.contentLength = 1 ∧
      ascii "2" ∈ headerValues (m.headers.of conflictingLength) (ascii "content-length") ∧
      ¬ Unambiguous conflictingLength m := by
  refine ⟨{ start := ⟨false, .post, some ⟨0, 4⟩, some ⟨5, 1⟩, 0, true⟩
            upgrade := false, keepAlive := true, contentLength := 1, body := ⟨76, 1⟩
            headers := ⟨17, 57⟩ }, by decide, rfl, by decide, ?_⟩
  intro hu
  exact absurd (hu.lengths (ascii "2") (by decide)) (by decide)

end Sevent.Http
