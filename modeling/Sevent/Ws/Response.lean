import Sevent.Http.Stability
import Sevent.Ws.Handshake

-- What the client reads of a response whose body is still on its way.
namespace Sevent.Ws

open Sevent.Http

-- The status and the headers the client knows.
def responseOf (buf : Bytes) (m : Msg) : HandshakeResponse :=
  { statusCode := m.start.statusCode
    accept := copyString acceptBase64Len ((findHeader buf m (ascii "sec-websocket-accept")).getD [])
    protocol := copyString 64 ((findHeader buf m (ascii "sec-websocket-protocol")).getD [])
    location := copyString 256 ((findHeader buf m (ascii "location")).getD [])
    extensions := copyString 256 ((findHeader buf m (ascii "sec-websocket-extensions")).getD []) }

-- ws_parse_response refuses a 101 that has no accept value.
def HandshakeResponse.unaccepted (resp : HandshakeResponse) : Prop :=
  resp.statusCode = 101 ∧ resp.accept = []

instance decidableUnaccepted (resp : HandshakeResponse) : Decidable resp.unaccepted :=
  inferInstanceAs (Decidable (_ ∧ _))

theorem parseResponse_complete {buf : Bytes} {m : Msg} (h : Http.parse buf = .complete m)
    (hresp : m.start.isResponse = true) (hlen : 14 ≤ buf.length) :
    parseResponse buf =
      (if (responseOf buf m).unaccepted then -1 else (m.body.off : Int), responseOf buf m) := by
  unfold parseResponse
  rw [if_neg (by omega), h]
  simp only [hresp, Bool.not_true, Bool.false_eq_true, if_false]
  show (if (responseOf buf m).statusCode = 101 ∧ (responseOf buf m).accept = [] then
    ((-1 : Int), responseOf buf m) else ((m.body.off : Int), responseOf buf m)) = _
  by_cases hu : (responseOf buf m).unaccepted
  · rw [if_pos hu]
    exact if_pos hu
  · rw [if_neg hu]
    exact if_neg hu

-- ---- a part of the response ----

theorem responseOf_append {buf : Bytes} {m : Msg} (h : Http.parse buf = .complete m) (s : Bytes) :
    responseOf (buf ++ s) m = responseOf buf m := by
  have hfind := ((parse_stable buf s [] (by simp)).1 m h).2.2
  simp only [responseOf, hfind]

-- A part that holds the header block: all of the message, or not all of its body.
theorem parse_part {full b : Bytes} {m : Msg} (h : Http.parse full = .complete m) (hb : b <+: full) :
    (m.consumed ≤ b.length → Http.parse b = .complete m ∧ responseOf b m = responseOf full m) ∧
      (b.length < m.consumed → Http.parse b = .more) := by
  have htake := parse_take_consumed h
  have hcons := parse_consumed_le h
  have hlen : (full.take m.consumed).length = m.consumed := List.length_take_of_le hcons
  refine ⟨fun hall => ?_, fun hshort => ?_⟩
  · obtain ⟨s, hs⟩ : full.take m.consumed <+: b :=
      List.prefix_of_prefix_length_le (List.take_prefix _ _) hb (by omega)
    have hwhole : Http.parse b = .complete m := hs ▸ parse_complete_append htake s
    obtain ⟨t, rfl⟩ := hb
    exact ⟨hwhole, (responseOf_append hwhole t).symm⟩
  · obtain ⟨q, hq⟩ : b <+: full.take m.consumed :=
      List.prefix_of_prefix_length_le hb (List.take_prefix _ _) (by omega)
    refine parse_proper_prefix (q := q) (hq.symm ▸ htake) (by rw [hq, hlen]) fun hnil => ?_
    rw [hnil, List.append_nil] at hq
    rw [hq] at hshort
    omega

theorem parseHeadOnly_part {full b : Bytes} {m : Msg} (h : Http.parse full = .complete m)
    (hb : b <+: full) (hhead : m.body.off ≤ b.length) (hsmall : m.body.off < 4096) :
    parseHeadOnly b =
      if headOnlyStatusOk (full.take (m.body.off - 4)) then (m.body.off : Int) else -1 := by
  obtain ⟨hdrEnd, lineEnd, f, hend, -, -, -, -, hm⟩ := parse_complete h
  have hoff : m.body.off = hdrEnd + 4 := congrArg (·.body.off) hm
  rw [hoff] at hhead hsmall ⊢
  have hpart : full.take b.length = b := (List.prefix_iff_eq_take.mp hb).symm
  have hendb : findHdrEnd b = some hdrEnd := by
    rw [← hpart]
    exact findHdrEnd_take hend hhead
  have htake : b.take hdrEnd = full.take hdrEnd := by
    rw [← hpart, List.take_take, Nat.min_eq_left (by omega)]
  unfold parseHeadOnly
  rw [hendb]
  simp only [Nat.add_sub_cancel]
  rw [if_neg (by omega), htake]
  rfl

-- The length of the header block and the fields that the whole response gives.
def HeadSuffices (full b : Bytes) (m : Msg) : Prop :=
  (parseResponse b).1 = m.body.off ∧ (parseResponse b).2 = (parseResponse full).2

instance decidableHeadSuffices (full b : Bytes) (m : Msg) : Decidable (HeadSuffices full b m) :=
  inferInstanceAs (Decidable (_ ∧ _))

-- The body is there; without it the reason phrase has to be a number and there is nothing to read.
def Readable (full b : Bytes) (m : Msg) : Prop :=
  14 ≤ b.length ∧
    if m.consumed ≤ b.length then ¬ (responseOf full m).unaccepted
    else headOnlyStatusOk (full.take (m.body.off - 4)) = true ∧ responseOf full m = .zero

theorem head_suffices_iff (full b : Bytes) (m : Msg) (h : Http.parse full = .complete m)
    (hresp : m.start.isResponse = true) (hsmall : m.body.off < 4096) (hb : b <+: full)
    (hhead : m.body.off ≤ b.length) : HeadSuffices full b m ↔ Readable full b m := by
  have hpos : 4 ≤ m.body.off := by
    obtain ⟨hdrEnd, lineEnd, f, -, -, -, -, -, hm⟩ := parse_complete h
    have hoff : m.body.off = hdrEnd + 4 := congrArg (·.body.off) hm
    omega
  have hle := hb.length_le
  unfold HeadSuffices Readable
  by_cases h14 : 14 ≤ b.length
  · obtain ⟨hall, hpart⟩ := parse_part h hb
    have hfull := parseResponse_complete h hresp (by omega)
    rw [hfull]
    by_cases hcons : m.consumed ≤ b.length
    · obtain ⟨hparse, hfields⟩ := hall hcons
      rw [parseResponse_complete hparse hresp h14, hfields, if_pos hcons]
      by_cases hu : (responseOf full m).unaccepted
      · rw [if_pos hu]
        constructor
        · intro hbad
          have := hbad.1
          dsimp only at this
          omega
        · intro hbad
          exact absurd hu hbad.2
      · rw [if_neg hu]
        exact ⟨fun _ => ⟨h14, hu⟩, fun _ => ⟨rfl, rfl⟩⟩
    · have hb0 : parseResponse b = (parseHeadOnly b, .zero) := by
        unfold parseResponse
        rw [if_neg (by omega), hpart (by omega)]
      rw [hb0, parseHeadOnly_part h hb hhead hsmall, if_neg hcons]
      by_cases hs : headOnlyStatusOk (full.take (m.body.off - 4)) = true
      · rw [if_pos hs]
        exact ⟨fun hz => ⟨h14, hs, hz.2.symm⟩, fun hz => ⟨rfl, hz.2.2.symm⟩⟩
      · rw [if_neg hs]
        constructor
        · intro hbad
          have := hbad.1
          dsimp only at this
          omega
        · intro hbad
          exact absurd hbad.2.1 hs
  · have hb0 : parseResponse b = (0, .zero) := by
      unfold parseResponse
      rw [if_pos (by omega)]
    rw [hb0]
    constructor
    · intro hbad
      have := hbad.1
      dsimp only at this
      omega
    · intro hbad
      exact absurd hbad.1 h14

-- A redirect with a body of two bytes.
def redirectHead : Bytes :=
  ascii "HTTP/1.1 302 Found\r\n" ++ ascii "Location: /b\r\n" ++ ascii "Content-Length: 2\r\n\r\n"

def redirectMsg : Msg :=
  { start :=
      { isResponse := true, method := .unknown, methodRef := none, target := none, statusCode := 302
        keepAlive := true }
    upgrade := false, keepAlive := true, contentLength := 2, body := ⟨55, 2⟩, headers := ⟨20, 33⟩ }

theorem head_suffices_whole : HeadSuffices (redirectHead ++ [79, 75]) (redirectHead ++ [79, 75]) redirectMsg := by
  obtain ⟨hparse, hreadable⟩ : Http.parse (redirectHead ++ [79, 75]) = .complete redirectMsg ∧
      Readable (redirectHead ++ [79, 75]) (redirectHead ++ [79, 75]) redirectMsg := by
    unfold Readable
    decide
  exact (head_suffices_iff _ _ _ hparse rfl (by decide) List.prefix_rfl (by decide)).mpr hreadable

-- The reason phrase is looked at for a status, and the location is not read.
theorem head_alone_refused :
    Http.parse (redirectHead ++ [79, 75]) = .complete redirectMsg ∧
      redirectMsg.body.off < 4096 ∧ redirectMsg.body.off ≤ redirectHead.length ∧
      ¬ HeadSuffices (redirectHead ++ [79, 75]) redirectHead redirectMsg := by
  decide

end Sevent.Ws
