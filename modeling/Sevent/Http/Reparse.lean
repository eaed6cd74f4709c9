import Mathlib.Data.Bool.AllAny
import Sevent.Http.Decimal
import Sevent.Http.Head
import Sevent.Http.Respond

-- The responses that the builder writes, as the parser reads them.
namespace Sevent.Http

-- ---- the head area ----

def Header.field (h : Header) : Bytes × Bytes := (h.name.getD [], h.value.getD [])

theorem headAppend_some {head piece out : Bytes} (h : headAppend head piece = some out) : out = head ++ piece := by
  unfold headAppend at h
  split at h
  · cases h
  · exact (Option.some.inj h).symm

theorem ascii_crlf : ascii "\r\n" = crlf := by decide

theorem ascii_colon : ascii ": " = [58, 32] := by decide

theorem fieldLine_eq (n v : Bytes) : n ++ ascii ": " ++ v ++ ascii "\r\n" = fieldLine (n, v) ++ crlf := by
  rw [ascii_crlf, ascii_colon, fieldLine, List.append_assoc n]
  rfl

theorem appendHeaders_some {hs : List Header} {head out : Bytes} (h : appendHeaders head hs = some out) :
    out = head ++ fieldBlock (hs.map Header.field) ∧ ∀ g ∈ hs, ∃ n v, g.name = some n ∧ g.value = some v := by
  induction hs generalizing head with
  | nil => exact ⟨by rw [← Option.some.inj h]; exact (List.append_nil head).symm, nofun⟩
  | cons g hs ih =>
      rw [appendHeaders] at h
      split at h
      · rename_i n v hn hv
        obtain ⟨mid, hmid, hrest⟩ := Option.bind_eq_some_iff.mp h
        obtain ⟨hout, hnamed⟩ := ih hrest
        have hfield : g.field = (n, v) := by
          rw [Header.field, hn, hv]
          rfl
        refine ⟨?_, ?_⟩
        · rw [hout, headAppend_some hmid, fieldLine_eq, List.map_cons, fieldBlock_cons, hfield,
            List.append_assoc]
        · intro x hx
          rcases List.mem_cons.mp hx with rfl | hx
          · exact ⟨n, v, hn, hv⟩
          · exact hnamed x hx
      · cases h

def statusLine (resp : Response) (text : Bytes) : Bytes :=
  ascii "HTTP/1.1 " ++ ascii (toString resp.status) ++ ascii " " ++ text

-- The fields that the builder adds of its own.
def lengthField (resp : Response) : List (Bytes × Bytes) :=
  if !noBodyStatus resp.status && !respHasHeader resp (ascii "Content-Length") then
    [(ascii "Content-Length", ascii (toString resp.bodyLen))]
  else []

def closeField (resp : Response) (closeIt : Bool) : List (Bytes × Bytes) :=
  if closeIt && !respHasHeader resp (ascii "Connection") then [(ascii "Connection", ascii "close")] else []

theorem mem_lengthField {resp : Response} {f : Bytes × Bytes} (h : f ∈ lengthField resp) :
    f = (ascii "Content-Length", ascii (toString resp.bodyLen)) := by
  unfold lengthField at h
  split at h
  · exact List.mem_singleton.mp h
  · cases h

theorem mem_closeField {resp : Response} {closeIt : Bool} {f : Bytes × Bytes} (h : f ∈ closeField resp closeIt) :
    f = (ascii "Connection", ascii "close") := by
  unfold closeField at h
  split at h
  · exact List.mem_singleton.mp h
  · cases h

def responseFields (resp : Response) (closeIt : Bool) : List (Bytes × Bytes) :=
  resp.headers.map Header.field ++ (lengthField resp ++ closeField resp closeIt)

theorem fieldBlock_single (n v : Bytes) : fieldBlock [(n, v)] = fieldLine (n, v) ++ crlf :=
  (fieldBlock_cons (n, v) []).trans (List.append_nil _)

theorem respondHead_eq (resp : Response) (text : Bytes) (closeIt : Bool) :
    respondHead resp text closeIt =
      (headAppend [] (ascii "HTTP/1.1 " ++ ascii (toString resp.status) ++ ascii " " ++ text ++
          ascii "\r\n")).bind fun first =>
        (appendHeaders first resp.headers).bind fun named =>
          (if !noBodyStatus resp.status && !respHasHeader resp (ascii "Content-Length") then
            headAppend named (ascii "Content-Length: " ++ ascii (toString resp.bodyLen) ++ ascii "\r\n")
          else some named).bind fun sized =>
            (if closeIt && !respHasHeader resp (ascii "Connection") then
              headAppend sized (ascii "Connection: close\r\n")
            else some sized).bind fun closed =>
              if closed.length + 2 > headerBufSize then none else some (closed ++ ascii "\r\n") := by
  unfold respondHead
  by_cases hlength : (!noBodyStatus resp.status && !respHasHeader resp (ascii "Content-Length")) = true
  · by_cases hclose : (closeIt && !respHasHeader resp (ascii "Connection")) = true
    · simp only [hlength, hclose, if_true, Option.bind_eq_bind]
    · simp only [hlength, hclose, if_true, if_false, Option.bind_eq_bind, Bool.false_eq_true]
  · by_cases hclose : (closeIt && !respHasHeader resp (ascii "Connection")) = true
    · simp only [hlength, hclose, if_true, if_false, Option.bind_eq_bind, Bool.false_eq_true]
    · simp only [hlength, hclose, if_false, Option.bind_eq_bind, Bool.false_eq_true]

theorem respondHead_some {resp : Response} {text : Bytes} {closeIt : Bool} {head : Bytes}
    (h : respondHead resp text closeIt = some head) :
    head = headOf (statusLine resp text) (responseFields resp closeIt) ∧
      ∀ g ∈ resp.headers, ∃ n v, g.name = some n ∧ g.value = some v := by
  rw [respondHead_eq] at h
  simp only [Option.bind_eq_some_iff] at h
  obtain ⟨first, hfirst, named, hnamed, sized, hsized, closed, hclosed, hend⟩ := h
  obtain ⟨hfields, hall⟩ := appendHeaders_some hnamed
  have hlength : sized = named ++ fieldBlock (lengthField resp) := by
    unfold lengthField
    split at hsized
    · rw [if_pos ‹_›, fieldBlock_single, ← fieldLine_eq, headAppend_some hsized]
      rfl
    · rw [if_neg ‹_›, ← Option.some.inj hsized]
      exact (List.append_nil named).symm
  have hclose : closed = sized ++ fieldBlock (closeField resp closeIt) := by
    have hline : ascii "Connection: close\r\n" = fieldLine (ascii "Connection", ascii "close") ++ crlf := by
      decide
    unfold closeField
    split at hclosed
    · rw [if_pos ‹_›, fieldBlock_single, headAppend_some hclosed, hline]
    · rw [if_neg ‹_›, ← Option.some.inj hclosed]
      exact (List.append_nil sized).symm
  refine ⟨?_, hall⟩
  split at hend
  · cases hend
  · rw [← Option.some.inj hend, hclose, hlength, hfields, headAppend_some hfirst, ascii_crlf, headOf,
      responseFields, fieldBlock_append, fieldBlock_append, statusLine]
    simp only [List.append_assoc, List.nil_append]

-- ---- well-formed responses ----

-- tchar of RFC 7230.
def isTchar (b : Byte) : Bool :=
  isDigit b || (65 ≤ b && b ≤ 90) || (97 ≤ b && b ≤ 122) ||
    [33, 35, 36, 37, 38, 39, 42, 43, 45, 46, 94, 95, 96, 124, 126].contains b

def IsToken (n : Bytes) : Prop := n ≠ [] ∧ n.all isTchar = true

theorem IsToken.plain {n : Bytes} (h : IsToken n) : Unbroken n ∧ 58 ∉ n := by
  have hall := List.all_eq_true.mp h.2
  refine ⟨fun b hb => ⟨?_, ?_⟩, fun hcolon => ?_⟩
  · rintro rfl
    exact absurd (hall 13 hb) (by decide)
  · rintro rfl
    exact absurd (hall 10 hb) (by decide)
  · exact absurd (hall 58 hcolon) (by decide)

structure Response.Proper (resp : Response) : Prop where
  status : 100 ≤ resp.status ∧ resp.status ≤ 999
  text : ∀ t, resp.text = some t → Unbroken t
  names : ∀ h ∈ resp.headers, ∀ n, h.name = some n → IsToken n ∧
    ciEq n (ascii "Content-Length") = false ∧ ciEq n (ascii "Transfer-Encoding") = false
  values : ∀ h ∈ resp.headers, ∀ v, h.value = some v → Unbroken v
  -- the memory behind the pointer, and the range of size_t
  body : ∀ b, resp.body = some b → resp.bodyLen ≤ b.length
  size : resp.bodyLen ≤ sizeMax

theorem statusText_unbroken {status : Int} {t : Bytes} (h : statusText status = some t) : Unbroken t := by
  have hall : ∀ s ∈ ["OK", "Created", "No Content", "Moved Permanently", "Found", "Not Modified", "Bad Request",
      "Unauthorized", "Forbidden", "Not Found", "Method Not Allowed", "Conflict", "Payload Too Large",
      "Too Many Requests", "Internal Server Error", "Not Implemented", "Bad Gateway", "Service Unavailable"],
      (ascii s).all (fun b => b != 13 && b != 10) = true := by decide
  have hplain : ∀ s : String, (ascii s).all (fun b => b != 13 && b != 10) = true → Unbroken (ascii s) := by
    intro s hs b hb
    have hb := List.all_eq_true.mp hs b hb
    simpa using hb
  unfold statusText at h
  split at h <;> first
    | exact Option.some.inj h ▸ hplain _ (hall _ (by simp))
    | cases h

theorem respondText_some {resp : Response} {text : Bytes} (h : respondText resp = some text) :
    resp.text.or (statusText resp.status) = some text ∧ (resp.bodyLen > 0 → resp.body ≠ none) ∧
      (noBodyStatus resp.status = true → resp.bodyLen = 0) := by
  unfold respondText at h
  split at h
  · cases h
  · rename_i t ht
    split at h
    · cases h
    rename_i hbody
    split at h
    · cases h
    rename_i hempty
    refine ⟨ht.trans h, fun hlen hnone => hbody ⟨hlen, hnone⟩, fun hno => ?_⟩
    exact Nat.eq_zero_of_not_pos fun hlen => hempty ⟨hno, hlen⟩

theorem Response.Proper.reason {resp : Response} (h : resp.Proper) {text : Bytes}
    (htext : respondText resp = some text) : Unbroken text := by
  have hor := (respondText_some htext).1
  cases ht : resp.text with
  | some t =>
      rw [ht] at hor
      exact h.text text (ht.trans hor)
  | none =>
      rw [ht] at hor
      exact statusText_unbroken hor

-- ---- the status line ----

theorem statusLine_parsed {resp : Response} (h : resp.Proper) (text : Bytes) :
    ∃ start, parseStartLine (statusLine resp text) = some start ∧ start.isResponse = true ∧
      (start.statusCode : Int) = resp.status ∧ start.keepAlive = true := by
  obtain ⟨n, hn⟩ := Int.eq_ofNat_of_zero_le (by have := h.status.1; omega : 0 ≤ resp.status)
  have hstatus := h.status
  rw [hn] at hstatus
  have hdigits : ascii (toString resp.status) = ascii (toString n) := by
    rw [hn]
    rfl
  have hfirst : statusLine resp text =
      ascii "HTTP/1.1" ++ 32 :: (ascii (toString n) ++ 32 :: text) := by
    have hsplit : ascii "HTTP/1.1 " = ascii "HTTP/1.1" ++ [32] := by decide
    have hblank : ascii " " = [32] := by decide
    rw [statusLine, hdigits, hsplit, hblank]
    simp only [List.append_assoc, List.cons_append, List.nil_append]
  have hspace : (32 : Byte) ∉ ascii "HTTP/1.1" := by decide
  have hnone : (32 : Byte) ∉ ascii (toString n) := fun hmem =>
    absurd (digits_plain n 32 hmem).2.2 (by decide)
  have hlen := digits_pos n
  have hshort : (ascii (toString n)).length ≤ 3 := digits_length_le (by decide) (by
    show n < 1000
    omega)
  have hprefix : (ascii "HTTP/").isPrefixOf (statusLine resp text) = true := by
    rw [hfirst]
    rfl
  have hdrop : (ascii "HTTP/1.1" ++ 32 :: (ascii (toString n) ++ 32 :: text)).drop
      ((ascii "HTTP/1.1").length + 1) = ascii (toString n) ++ 32 :: text := by
    rw [← List.drop_drop, List.drop_left]
    rfl
  have hversion : ((ascii "HTTP/1.1").drop 5) = [49, 46, 49] := by decide
  refine ⟨{ isResponse := true, method := .unknown, methodRef := none, target := none, statusCode := n
            keepAlive := true }, ?_, rfl, hn.symm, rfl⟩
  rw [parseStartLine, if_pos hprefix, hfirst, parseStatusLine, memchr_first hspace]
  dsimp only
  rw [hdrop, memchr_first hnone, Option.getD_some, List.take_left, if_neg (by omega),
    if_neg (by rw [digits_isDigit]; decide), decimalValue_digits, List.take_left, hversion]
  rfl

-- ---- the fields ----

theorem ciEq_self (n : Bytes) : ciEq n n = true := beq_self_eq_true _

section

variable {resp : Response} (h : resp.Proper)
include h

theorem Response.Proper.given (hnamed : ∀ g ∈ resp.headers, ∃ n v, g.name = some n ∧ g.value = some v)
    {f : Bytes × Bytes} (hf : f ∈ resp.headers.map Header.field) :
    Field f ∧ ciEq f.1 (ascii "content-length") = false ∧ ciEq f.1 (ascii "transfer-encoding") = false := by
  obtain ⟨g, hg, rfl⟩ := List.mem_map.mp hf
  obtain ⟨n, v, hn, hv⟩ := hnamed g hg
  obtain ⟨htoken, hlength, hcoding⟩ := h.names g hg n hn
  have hfield : g.field = (n, v) := by
    rw [Header.field, hn, hv]
    rfl
  have hlower : (ascii "content-length").map toLower = (ascii "Content-Length").map toLower := by decide
  have hlower' : (ascii "transfer-encoding").map toLower = (ascii "Transfer-Encoding").map toLower := by decide
  rw [hfield]
  refine ⟨⟨htoken.plain.1, h.values g hg v hv, htoken.plain.2⟩, ?_, ?_⟩
  · rw [ciEq, hlower]
    exact hlength
  · rw [ciEq, hlower']
    exact hcoding

theorem Response.Proper.noLength : respHasHeader resp (ascii "Content-Length") = false := by
  unfold respHasHeader
  rw [List.any_eq_false]
  intro g hg hany
  obtain ⟨n, hn, heq⟩ := (Option.any_eq_true _ _).mp hany
  rw [(h.names g hg n hn).2.1] at heq
  cases heq

theorem Response.Proper.fields (hnamed : ∀ g ∈ resp.headers, ∃ n v, g.name = some n ∧ g.value = some v)
    (closeIt : Bool) : ∀ f ∈ responseFields resp closeIt, Field f := by
  intro f hf
  have hname : Unbroken (ascii "Content-Length") ∧ Unbroken (ascii "Connection") ∧
      Unbroken (ascii "close") :=
    ⟨List.all_iff_forall_prop.mp (by decide), List.all_iff_forall_prop.mp (by decide),
      List.all_iff_forall_prop.mp (by decide)⟩
  have hcolon : 58 ∉ ascii "Content-Length" ∧ 58 ∉ ascii "Connection" := by decide
  rcases List.mem_append.mp hf with hf | hf
  · exact (h.given hnamed hf).1
  rcases List.mem_append.mp hf with hf | hf
  · rw [mem_lengthField hf]
    exact ⟨hname.1, fun b hb => ⟨(digits_plain _ b hb).1, (digits_plain _ b hb).2.1⟩, hcolon.1⟩
  · rw [mem_closeField hf]
    exact ⟨hname.2.1, hname.2.2, hcolon.2⟩

theorem Response.Proper.length_fields
    (hnamed : ∀ g ∈ resp.headers, ∃ n v, g.name = some n ∧ g.value = some v) (closeIt : Bool) :
    (responseFields resp closeIt).filter (fun f => ciEq f.1 (ascii "content-length")) = lengthField resp := by
  have hname : ciEq (ascii "Content-Length") (ascii "content-length") = true ∧
      ciEq (ascii "Connection") (ascii "content-length") = false := by decide
  have hgiven : (resp.headers.map Header.field).filter (fun f => ciEq f.1 (ascii "content-length")) = [] := by
    rw [List.filter_eq_nil_iff]
    intro f hf hci
    exact absurd (hci.symm.trans (h.given hnamed hf).2.1) (by decide)
  have hlength : (lengthField resp).filter (fun f => ciEq f.1 (ascii "content-length")) = lengthField resp := by
    rw [List.filter_eq_self]
    intro f hf
    rw [mem_lengthField hf]
    exact hname.1
  have hclose : (closeField resp closeIt).filter (fun f => ciEq f.1 (ascii "content-length")) = [] := by
    rw [List.filter_eq_nil_iff]
    intro f hf hci
    rw [mem_closeField hf] at hci
    exact absurd (hci.symm.trans hname.2) (by decide)
  rw [responseFields, List.filter_append, List.filter_append, hgiven, hlength, hclose, List.nil_append,
    List.append_nil]

-- No field asks for a transfer coding.
theorem Response.Proper.coding
    (hnamed : ∀ g ∈ resp.headers, ∃ n v, g.name = some n ∧ g.value = some v) (closeIt : Bool) :
    findHeaderIn (fieldBlock (responseFields resp closeIt)) (ascii "transfer-encoding") = none := by
  have hname : ciEq (ascii "Content-Length") (ascii "transfer-encoding") = false ∧
      ciEq (ascii "Connection") (ascii "transfer-encoding") = false := by decide
  rw [findHeaderIn_block (h.fields hnamed closeIt), List.find?_eq_none.mpr]
  · rfl
  intro f hf hci
  have hother : ciEq f.1 (ascii "transfer-encoding") = false := by
    rcases List.mem_append.mp hf with hf | hf
    · exact (h.given hnamed hf).2.2
    rcases List.mem_append.mp hf with hf | hf
    · rw [mem_lengthField hf]
      exact hname.1
    · rw [mem_closeField hf]
      exact hname.2
  exact absurd (hci.symm.trans hother) (by decide)

-- The builder asks for the close when the user does not mention the connection.
theorem Response.Proper.connection
    (hnamed : ∀ g ∈ resp.headers, ∃ n v, g.name = some n ∧ g.value = some v)
    (hconn : respHasHeader resp (ascii "Connection") = false) :
    findHeaderIn (fieldBlock (responseFields resp true)) (ascii "connection") = some (ascii "close") := by
  have hname : ciEq (ascii "Content-Length") (ascii "connection") = false ∧
      ciEq (ascii "Connection") (ascii "connection") = true := by decide
  have hlower : (ascii "connection").map toLower = (ascii "Connection").map toLower := by decide
  have hgiven : (resp.headers.map Header.field).find? (fun f => ciEq f.1 (ascii "connection")) = none := by
    rw [List.find?_eq_none]
    intro f hf hci
    obtain ⟨g, hg, rfl⟩ := List.mem_map.mp hf
    obtain ⟨n, v, hn, -⟩ := hnamed g hg
    have hother := List.any_eq_false.mp hconn g hg
    rw [hn] at hother
    rw [Header.field, hn, ciEq, hlower] at hci
    exact hother hci
  have hlength : (lengthField resp).find? (fun f => ciEq f.1 (ascii "connection")) = none := by
    rw [List.find?_eq_none]
    intro f hf hci
    rw [mem_lengthField hf] at hci
    exact absurd (hci.symm.trans hname.1) (by decide)
  have hclose : closeField resp true = [(ascii "Connection", ascii "close")] := by
    unfold closeField
    rw [hconn]
    rfl
  have htrim : trim (ascii "close") = ascii "close" := by decide
  rw [findHeaderIn_block (h.fields hnamed true), responseFields, List.find?_append, List.find?_append, hgiven,
    hlength, hclose, List.find?_cons, hname.2]
  exact congrArg some htrim

theorem Response.Proper.contentLength
    (hnamed : ∀ g ∈ resp.headers, ∃ n v, g.name = some n ∧ g.value = some v) (closeIt : Bool)
    (hempty : noBodyStatus resp.status = true → resp.bodyLen = 0) :
    Http.contentLength (fieldBlock (responseFields resp closeIt)) = some resp.bodyLen := by
  have hfind : ∀ nth, findHeaderNth (fieldBlock (responseFields resp closeIt)) (ascii "content-length") nth =
      ((lengthField resp)[nth]?).map fun f => trim f.2 := by
    intro nth
    rw [findHeaderNth_block (h.fields hnamed closeIt), h.length_fields hnamed]
  unfold Http.contentLength
  rw [findHeaderIn, hfind 0, hfind 1]
  by_cases hno : noBodyStatus resp.status = true
  · have hnone : lengthField resp = [] := by
      unfold lengthField
      rw [hno]
      rfl
    rw [hnone, hempty hno]
    rfl
  · have hone : lengthField resp = [(ascii "Content-Length", ascii (toString resp.bodyLen))] := by
      unfold lengthField
      rw [eq_false_of_ne_true hno, h.noLength]
      rfl
    have htrim : trim (ascii (toString resp.bodyLen)) = ascii (toString resp.bodyLen) :=
      trim_eq (fun b hb => (digits_plain _ b (List.mem_of_mem_head? hb)).2.2)
        fun b hb => (digits_plain _ b (List.mem_of_mem_getLast? hb)).2.2
    rw [hone]
    simp only [List.getElem?_cons_zero, List.getElem?_cons_succ, List.getElem?_nil, Option.map_some,
      Option.map_none]
    rw [htrim, parseContentLength_digits h.size]

theorem Response.Proper.parsed
    (hnamed : ∀ g ∈ resp.headers, ∃ n v, g.name = some n ∧ g.value = some v) (closeIt : Bool)
    (hempty : noBodyStatus resp.status = true → resp.bodyLen = 0) :
    ∃ f, parseFields (fieldBlock (responseFields resp closeIt)) true = some f ∧
      f.contentLength = resp.bodyLen ∧
      (closeIt = true → respHasHeader resp (ascii "Connection") = false → f.keepAlive = false) := by
  unfold parseFields
  dsimp only
  rw [h.contentLength hnamed closeIt hempty, h.coding hnamed closeIt]
  refine ⟨_, rfl, rfl, fun hclose hconn => ?_⟩
  have hasks : hdrHasToken (ascii "close") (ascii "close") = true := by decide
  rw [hclose, h.connection hnamed hconn]
  dsimp only
  rw [Option.any_some, hasks]
  rfl

-- A given name is looked up among the given headers: they come first.
theorem Response.Proper.lookup
    (hnamed : ∀ g ∈ resp.headers, ∃ n v, g.name = some n ∧ g.value = some v) (closeIt : Bool)
    {g : Header} (hg : g ∈ resp.headers) {n : Bytes} (hn : g.name = some n) :
    ∃ g' ∈ resp.headers, ∃ n' v', g'.name = some n' ∧ g'.value = some v' ∧ ciEq n' n = true ∧
      findHeaderIn (fieldBlock (responseFields resp closeIt)) n = some (trim v') := by
  have hfound : ((resp.headers.map Header.field).find? fun f => ciEq f.1 n).isSome := by
    rw [List.find?_isSome]
    refine ⟨g.field, List.mem_map_of_mem hg, ?_⟩
    rw [Header.field, hn]
    exact ciEq_self n
  obtain ⟨f, hf⟩ := Option.isSome_iff_exists.mp hfound
  have hname : ciEq f.1 n = true := List.find?_some (p := fun f : Bytes × Bytes => ciEq f.1 n) hf
  obtain ⟨g', hg', rfl⟩ := List.mem_map.mp (List.mem_of_find?_eq_some hf)
  obtain ⟨n', v', hn', hv'⟩ := hnamed g' hg'
  have hfield : g'.field = (n', v') := by
    rw [Header.field, hn', hv']
    rfl
  rw [hfield] at hname
  refine ⟨g', hg', n', v', hn', hv', hname, ?_⟩
  rw [findHeaderIn_block (h.fields hnamed closeIt), responseFields, List.find?_append, hf, hfield]
  rfl

-- The response in front of any bytes that hold its body.
theorem Response.Proper.reparsed {text head : Bytes} {closeIt : Bool} (htext : respondText resp = some text)
    (hhead : respondHead resp text closeIt = some head) :
    ∃ m : Msg, m.start.isResponse = true ∧ (m.start.statusCode : Int) = resp.status ∧
      m.consumed = head.length + resp.bodyLen ∧
      (closeIt = true → respHasHeader resp (ascii "Connection") = false → m.keepAlive = false) ∧
      ∀ rest : Bytes, resp.bodyLen ≤ rest.length → parse (head ++ rest) = .complete m ∧
        m.body.of (head ++ rest) = rest.take resp.bodyLen ∧
        ∀ g ∈ resp.headers, ∀ n, g.name = some n →
          ∃ g' ∈ resp.headers, ∃ n' v', g'.name = some n' ∧ g'.value = some v' ∧ ciEq n' n = true ∧
            findHeader (head ++ rest) m n = some (trim v') := by
  obtain ⟨hout, hnamed⟩ := respondHead_some hhead
  obtain ⟨start, hstart, hresponse, hstatus, hkeep⟩ := statusLine_parsed h text
  obtain ⟨f, hf, hlen, hclose⟩ := h.parsed hnamed closeIt (respondText_some htext).2.2
  have hdigits : Unbroken (statusLine resp text) := by
    have hfixed : Unbroken (ascii "HTTP/1.1 ") ∧ Unbroken (ascii " ") :=
      ⟨List.all_iff_forall_prop.mp (by decide), List.all_iff_forall_prop.mp (by decide)⟩
    obtain ⟨n, hn⟩ := Int.eq_ofNat_of_zero_le (by have := h.status.1; omega : 0 ≤ resp.status)
    have hnumber : ascii (toString resp.status) = ascii (toString n) := by
      rw [hn]
      rfl
    intro b hb
    unfold statusLine at hb
    rw [hnumber] at hb
    simp only [List.mem_append] at hb
    rcases hb with ((hb | hb) | hb) | hb
    · exact hfixed.1 b hb
    · exact ⟨(digits_plain n b hb).1, (digits_plain n b hb).2.1⟩
    · exact hfixed.2 b hb
    · exact h.reason htext b hb
  refine ⟨bodyMsg start f (statusLine resp text) (responseFields resp closeIt), hresponse, hstatus, ?_, hclose, ?_⟩
  · rw [hout, ← hlen]
    rfl
  intro rest hrest
  rw [← hkeep] at hf
  rw [hout]
  refine ⟨parse_bodyOf hdigits (h.fields hnamed closeIt) hstart hf (hlen ▸ hrest), ?_, ?_⟩
  · rw [← hlen]
    unfold bodyMsg Slice.of
    dsimp only
    rw [List.drop_left]
  · intro g hg n hn
    obtain ⟨g', hg', n', v', hn', hv', hname, hfind⟩ := h.lookup hnamed closeIt hg hn
    refine ⟨g', hg', n', v', hn', hv', hname, ?_⟩
    have hblock := headMsg_headers start f (statusLine resp text) (responseFields resp closeIt) rest
    rw [findHeader]
    exact (congrArg (findHeaderIn · n) hblock).trans hfind

end

-- ---- the call ----

variable {env : Env} {c : Conn}

-- The bytes that a call has put into the write queue.
def sent (c c' : Conn) : Bytes := (queued (c'.log.drop c.log.length)).flatten

theorem sent_eq {c c' : Conn} (hgrows : c.log <+: c'.log) {parts : List Bytes}
    (hqueued : queued c'.log = queued c.log ++ parts) : sent c c' = parts.flatten := by
  obtain ⟨more, hmore⟩ := hgrows
  rw [← hmore, queued_append] at hqueued
  rw [sent, ← hmore, List.drop_left, List.append_cancel_left hqueued]

theorem streamWrite_queued {data : Bytes} (hrc : (c.streamWrite env data).1 = Err.success) :
    queued (c.streamWrite env data).2.log = queued c.log ++ [data] := by
  by_cases hstream : c.stream = true
  swap
  · rw [streamWrite_gone (eq_false_of_ne_true hstream)] at hrc
    exact absurd hrc (by decide : Err.inval ≠ Err.success)
  have hret := (@streamWrite_accepted env _ hstream data).1.symm.trans hrc
  have hwritten : queued (c.emit (.written data (env.write c.log))).log = queued c.log ++ [data] := by
    rw [Conn.emit, queued_append, queued_taken data hret]
  have hended : queued (if (c.emit (.written data (env.write c.log))).released then
      c.emit (.written data (env.write c.log))
      else (c.emit (.written data (env.write c.log))).terminate env).log = queued c.log ++ [data] := by
    split
    · exact hwritten
    · exact (Quiet.terminate queued_unseen env _).view.trans hwritten
  unfold Conn.streamWrite
  rw [if_neg (by rw [hstream]; decide)]
  dsimp only
  split
  · exact hended
  · exact hended
  · exact hwritten

-- What a response that was built has written.
theorem respondBuild_queued {resp : Response} {close : Bool} {d : Conn}
    (hbuild : c.respondBuild env resp false = (Err.success, close, d)) :
    close = (resp.close || !c.reqKeepAlive) ∧ ∃ text head, respondText resp = some text ∧
      respondHead resp text close = some head ∧
      queued d.log = queued c.log ++ (head :: if resp.bodyLen > 0 then
        [(resp.body.getD []).take resp.bodyLen] else []) := by
  have hfail : ∀ {rc : Int} {p : Bool × Conn}, rc ≠ Err.success →
      c.respondBuild env resp false ≠ (rc, p) := by
    intro rc p hrc heq
    exact hrc (congrArg Prod.fst (heq.symm.trans hbuild))
  cases htext : respondText resp with
  | none => exact absurd (respondBuild_noText htext) (hfail (by decide))
  | some text =>
  by_cases halloc : env.alloc c.log = true
  swap
  · exact absurd (respondBuild_noMemory htext (eq_false_of_ne_true halloc)) (hfail (by decide))
  have hclose : (resp.close || false || !c.reqKeepAlive) = (resp.close || !c.reqKeepAlive) := by
    rw [Bool.or_false]
  cases hhead : respondHead resp text (resp.close || !c.reqKeepAlive) with
  | none => exact absurd (respondBuild_noHead htext halloc hhead) (hfail (by decide))
  | some head =>
  have hsame : queued (c.emit (.alloc true)).log = queued c.log := by
    rw [Conn.emit, queued_append]
    exact List.append_nil _
  obtain ⟨rc, d₁, hwrite⟩ : ∃ rc d₁, (c.emit (.alloc true)).streamWrite env head = (rc, d₁) := ⟨_, _, rfl⟩
  obtain ⟨rc', d₂, hbody⟩ : ∃ rc' d₂, d₁.streamWrite env ((resp.body.getD []).take resp.bodyLen) = (rc', d₂) :=
    ⟨_, _, rfl⟩
  rw [respondBuild_head htext halloc (hclose.symm ▸ hhead) hwrite hbody, hclose] at hbuild
  split at hbuild
  · exact absurd (congrArg Prod.fst hbuild) (by decide : Err.write ≠ Err.success)
  rename_i hrc
  have hfirst := @streamWrite_queued env (c.emit (.alloc true)) head
  rw [hwrite] at hfirst
  have hfirst := hfirst (not_not.mp hrc)
  split at hbuild
  · rename_i hlen
    split at hbuild
    · exact absurd (congrArg Prod.fst hbuild) (by decide : Err.write ≠ Err.success)
    rename_i hrc'
    rw [Prod.mk.injEq, Prod.mk.injEq] at hbuild
    obtain ⟨-, rfl, rfl⟩ := hbuild
    refine ⟨rfl, text, head, rfl, hhead, ?_⟩
    have hsecond := @streamWrite_queued env d₁ ((resp.body.getD []).take resp.bodyLen)
    rw [hbody] at hsecond
    rw [hsecond (not_not.mp hrc'), hfirst, hsame, if_pos hlen, List.append_assoc]
    rfl
  · rename_i hlen
    rw [Prod.mk.injEq, Prod.mk.injEq] at hbuild
    obtain ⟨-, rfl, rfl⟩ := hbuild
    refine ⟨rfl, text, head, rfl, hhead, ?_⟩
    rw [hfirst, hsame, if_neg hlen]

-- A connection that keeps alive is closed only because its next turn could not be posted.
theorem responseComplete_closing {wasAsync : Bool} {L : List Event} (hgrows : L <+: c.log)
    (h : (c.responseComplete env wasAsync).state = .closing) :
    c.closePending = true ∨ .posted .process false ∈ (c.responseComplete env wasAsync).log.drop L.length := by
  have hnote : L <+: (c.emit (.completing c.state c.closePending)).log := Conn.emit_grows _ hgrows
  unfold Conn.responseComplete at h ⊢
  dsimp only at h ⊢
  generalize hd : c.emit (.completing c.state c.closePending) = d at h hnote ⊢
  have hpending : d.closePending = c.closePending := by rw [← hd, Conn.emit]
  have hset : L <+: ((d.stateSet .parsing).idleReset env).log :=
    Conn.idleReset_grows (Conn.emit_grows (c := d) (.state d.state .parsing) hnote)
  have hstate : ((d.stateSet .parsing).idleReset env).state = .parsing := idleReset_state env _
  split at h
  · rename_i hp
    exact .inl (hpending.symm.trans hp)
  rename_i hp
  right
  rw [if_neg hp]
  generalize (d.stateSet .parsing).idleReset env = e at h hset hstate ⊢
  split at h
  swap
  · exact absurd (hstate.symm.trans h) (by decide)
  rename_i hmore
  rw [if_pos hmore]
  split at h
  · exact absurd (hstate.symm.trans h) (by decide)
  rename_i hfailed
  rw [if_neg hfailed]
  have hposted : (e.post env .process).2.log = e.log ++ [.posted .process false] := by
    have hpost : env.post e.log = false := eq_false_of_ne_true hfailed
    rw [Conn.post, hpost]
  obtain ⟨after, hafter⟩ := Conn.closeGraceful_grows
    (L := e.log ++ [.posted .process false]) (c := (e.post env .process).2) (hposted ▸ List.prefix_rfl)
  obtain ⟨before, hbefore⟩ := hset
  rw [← hafter, ← hbefore, List.append_assoc, List.append_assoc, List.drop_left]
  simp

theorem respond_ready {resp : Response} (hrc : (c.respond env resp).1 = Err.success) :
    (c.state = .request ∨ c.state = .awaitResp) ∧ c.wrote = false ∧
      ∃ close d, c.respondBuild env resp false = (Err.success, close, d) ∧
        (c.respond env resp).2 = { d with closePending := d.closePending || close }.responseComplete env
          (d.state == ConnState.awaitResp) := by
  by_cases hstate : c.state = .request ∨ c.state = .awaitResp
  swap
  · unfold Conn.respond at hrc
    rw [if_pos (not_or.mp hstate)] at hrc
    exact absurd hrc (by decide : Err.inval ≠ Err.success)
  by_cases hwrote : c.wrote = true
  · unfold Conn.respond at hrc
    rw [if_neg (by tauto), if_pos hwrote] at hrc
    exact absurd hrc (by decide : Err.inval ≠ Err.success)
  have hwrote : c.wrote = false := eq_false_of_ne_true hwrote
  obtain ⟨rc, close, d, hbuild⟩ : ∃ rc close d, c.respondBuild env resp false = (rc, close, d) := ⟨_, _, _, rfl⟩
  have heq := respond_eq hstate hwrote resp hbuild
  by_cases hzero : rc = 0
  · rw [if_neg (not_not.mpr hzero)] at heq
    subst hzero
    exact ⟨hstate, hwrote, close, d, hbuild, congrArg Prod.snd heq⟩
  · rw [if_pos hzero] at heq
    exact absurd ((congrArg Prod.fst heq).symm.trans hrc) hzero

-- The bytes of a response are read as that response. The connection closes after a response that
-- keeps alive only when the rest of its input could not be posted.
theorem responses_parse_back (env : Env) (recvCap : Nat) {c : Conn} (h : Reached env recvCap c)
    {resp : Response} (hresp : resp.Proper) (hrc : (c.respond env resp).1 = Err.success) :
    ∃ m : Msg, m.start.isResponse = true ∧ (m.start.statusCode : Int) = resp.status ∧
      m.consumed = (sent c (c.respond env resp).2).length ∧
      ((c.respond env resp).2.state = .closing → respHasHeader resp (ascii "Connection") = false →
        .posted .process false ∉ (c.respond env resp).2.log.drop c.log.length → m.keepAlive = false) ∧
      ∀ rest : Bytes, parse (sent c (c.respond env resp).2 ++ rest) = .complete m ∧
        m.body.of (sent c (c.respond env resp).2 ++ rest) = (resp.body.getD []).take resp.bodyLen ∧
        ∀ g ∈ resp.headers, ∀ n, g.name = some n →
          ∃ g' ∈ resp.headers, ∃ n' v', g'.name = some n' ∧ g'.value = some v' ∧ ciEq n' n = true ∧
            findHeader (sent c (c.respond env resp).2 ++ rest) m n = some (trim v') := by
  have hgrows : c.log <+: (c.respond env resp).2.log :=
    (Conn.grows_upheld env c.log).respond resp List.prefix_rfl
  obtain ⟨hstate, -, close, d, hbuild, hcomplete⟩ := respond_ready hrc
  obtain ⟨hclose, text, head, htext, hhead, hqueued⟩ := respondBuild_queued hbuild
  have hlevel := Level.respondBuild env c resp false
  have hbuilt : c.log <+: (c.respondBuild env resp false).2.2.log :=
    (Conn.grows_upheld env c.log).respondBuild resp false
      (by rcases hstate with hs | hs <;> rw [hs] <;> decide) List.prefix_rfl
  rw [hbuild] at hlevel hbuilt
  have hbody : ((resp.body.getD []).take resp.bodyLen).length = resp.bodyLen := by
    rw [List.length_take]
    by_cases hlen : 0 < resp.bodyLen
    · obtain ⟨b, hb⟩ := Option.ne_none_iff_exists'.mp ((respondText_some htext).2.1 hlen)
      have hfit := hresp.body b hb
      rw [hb, Option.getD_some]
      omega
    · omega
  have hsent : sent c (c.respond env resp).2 = head ++ (resp.body.getD []).take resp.bodyLen := by
    have hquiet := (Quiet.responseComplete queued_unseen env
      { d with closePending := d.closePending || close } (d.state == ConnState.awaitResp)).view
    rw [← hcomplete] at hquiet
    rw [sent_eq hgrows (hquiet.trans hqueued), List.flatten_cons]
    split
    · rw [List.flatten_cons, List.flatten_nil, List.append_nil]
    · rename_i hlen
      rw [List.flatten_nil, List.eq_nil_of_length_eq_zero (hbody.trans (by omega))]
  obtain ⟨m, hresponse, hstatus, hconsumed, hkeep, hall⟩ := hresp.reparsed htext hhead
  rw [hsent]
  refine ⟨m, hresponse, hstatus, ?_, ?_, fun rest => ?_⟩
  · rw [hconsumed, List.length_append, hbody]
  · intro hclosing hconn hposted
    rw [hcomplete] at hclosing hposted
    have hpending : d.closePending = !c.reqKeepAlive :=
      hlevel.closePending.trans (h.orderly.request (hstate.imp_right .inl))
    rcases responseComplete_closing (c := { d with closePending := d.closePending || close }) hbuilt hclosing
      with hp | hp
    · refine hkeep ?_ hconn
      have hp : (d.closePending || close) = true := hp
      rw [hpending, hclose] at hp
      rw [hclose]
      revert hp
      cases resp.close <;> cases c.reqKeepAlive <;> decide
    · exact absurd hp hposted
  · obtain ⟨hparse, hof, hfind⟩ := hall ((resp.body.getD []).take resp.bodyLen ++ rest)
      (by rw [List.length_append, hbody]; omega)
    rw [List.append_assoc]
    refine ⟨hparse, ?_, hfind⟩
    rw [hof, List.take_left' hbody]

theorem responses_parse_back_sample :
    ∃ m : Msg, m.start.isResponse = true ∧ (m.start.statusCode : Int) = okResponse.status ∧
      m.consumed = (sent (asked silent (ascii "GET / HTTP/1.1\r\n\r\n"))
        ((asked silent (ascii "GET / HTTP/1.1\r\n\r\n")).respond silent okResponse).2).length := by
  have hproper : okResponse.Proper :=
    ⟨by decide, nofun, nofun, nofun, fun b hb => Option.some.inj hb ▸ by decide, by decide⟩
  obtain ⟨m, hresponse, hstatus, hconsumed, -⟩ := responses_parse_back silent 64
    (.run silent 64 [.opened, .data (ascii "GET / HTTP/1.1\r\n\r\n")]) hproper (by decide +kernel)
  exact ⟨m, hresponse, hstatus, hconsumed⟩

-- Two requests at once; the handler answers the first one later, and nothing can be posted then.
def unposted : Env := { silent with post := fun _ => false }

theorem closing_response_keeps_alive :
    ∃ c, Reached unposted 64 c ∧ c.state = .awaitResp ∧ okResponse.Proper ∧
      (c.respond unposted okResponse).1 = Err.success ∧ (c.respond unposted okResponse).2.state = .closing ∧
      respHasHeader okResponse (ascii "Connection") = false ∧
      ∃ m, parse (sent c (c.respond unposted okResponse).2) = .complete m ∧ m.keepAlive = true := by
  refine ⟨asked unposted (ascii "GET / HTTP/1.1\r\n\r\nGET / HTTP/1.1\r\n\r\n"), .run unposted 64 _, by decide +kernel,
    ⟨by decide, nofun, nofun, nofun, fun b hb => Option.some.inj hb ▸ by decide, by decide⟩, by decide +kernel,
    by decide +kernel, by decide, ?_⟩
  have hsent : sent (asked unposted (ascii "GET / HTTP/1.1\r\n\r\nGET / HTTP/1.1\r\n\r\n"))
      ((asked unposted (ascii "GET / HTTP/1.1\r\n\r\nGET / HTTP/1.1\r\n\r\n")).respond unposted okResponse).2 =
      ascii "HTTP/1.1 200 OK\r\nContent-Length: 5\r\n\r\nhello" := by decide +kernel
  rw [hsent]
  exact ⟨{ start := { isResponse := true, method := .unknown, methodRef := none, target := none
                      statusCode := 200, keepAlive := true }
           upgrade := false, keepAlive := true, contentLength := 5, body := ⟨38, 5⟩
           headers := ⟨17, 19⟩ }, by decide, rfl⟩

end Sevent.Http
