import Sevent.Http.Framing

-- More input never changes a verdict that the parser has already reached.
namespace Sevent.Http

theorem findHdrEnd_bound {buf : Bytes} {i : Nat} (h : findHdrEnd buf = some i) :
    i + 4 ≤ buf.length := by
  induction buf generalizing i with
  | nil => cases h
  | cons b rest ih =>
      rw [findHdrEnd] at h
      split at h
      · next hpre =>
        cases h
        simpa [crlf2] using (List.isPrefixOf_iff_prefix.mp hpre).length_le
      · obtain ⟨j, hj, rfl⟩ := Option.map_eq_some_iff.mp h
        have := ih hj
        simp only [List.length_cons]
        omega

theorem findHdrEnd_append {buf : Bytes} {i : Nat} (h : findHdrEnd buf = some i) (s : Bytes) :
    findHdrEnd (buf ++ s) = some i := by
  induction buf generalizing i with
  | nil => cases h
  | cons b rest ih =>
      have hlen := findHdrEnd_bound h
      rw [findHdrEnd] at h
      rw [List.cons_append, findHdrEnd, ← List.cons_append]
      -- the four bytes compared lie inside `buf`
      have hpre : crlf2.isPrefixOf (b :: rest ++ s) = crlf2.isPrefixOf (b :: rest) := by
        rw [Bool.eq_iff_iff, List.isPrefixOf_iff_prefix, List.isPrefixOf_iff_prefix]
        constructor
        · intro hp
          exact List.prefix_of_prefix_length_le hp (List.prefix_append _ _)
            (by simp only [crlf2, List.length_cons, List.length_nil] at hlen ⊢; omega)
        · exact fun hp => hp.trans (List.prefix_append _ _)
      rw [hpre]
      split at h
      · next hyes => rw [if_pos hyes]; exact h
      · next hno =>
        rw [if_neg hno]
        obtain ⟨j, hj, rfl⟩ := Option.map_eq_some_iff.mp h
        rw [ih hj]
        rfl

theorem memchr_bound {c : Byte} {buf : Bytes} {i : Nat} (h : memchr c buf = some i) :
    i < buf.length := by
  obtain ⟨hlt, -⟩ := List.findIdx?_eq_some_iff_getElem.mp h
  exact hlt

theorem memchr_append {c : Byte} {buf : Bytes} {i : Nat} (h : memchr c buf = some i) (s : Bytes) :
    memchr c (buf ++ s) = some i := by
  unfold memchr at h ⊢
  rw [List.findIdx?_append, h]
  rfl

theorem Slice.of_append (sl : Slice) (buf s : Bytes) (h : sl.len = 0 ∨ sl.off + sl.len ≤ buf.length) :
    sl.of (buf ++ s) = sl.of buf := by
  unfold Slice.of
  rcases h with h | h
  · rw [h, List.take_zero, List.take_zero]
  · rw [List.drop_append_of_le_length (by omega),
      List.take_append_of_le_length (by rw [List.length_drop]; omega)]

theorem headerSlice_inside {buf : Bytes} {hdrEnd : Nat} (h : findHdrEnd buf = some hdrEnd)
    (lineEnd : Nat) :
    (headerSlice hdrEnd lineEnd).len = 0 ∨
      (headerSlice hdrEnd lineEnd).off + (headerSlice hdrEnd lineEnd).len ≤ buf.length := by
  have := findHdrEnd_bound h
  simp only [headerSlice]
  omega

-- Once the header block is there, the start line and the fields are settled.
theorem parse_head {buf : Bytes} {hdrEnd lineEnd : Nat} (hend : findHdrEnd buf = some hdrEnd)
    (hline : memchr 10 buf = some lineEnd) (s : Bytes) :
    findHdrEnd (buf ++ s) = some hdrEnd ∧ memchr 10 (buf ++ s) = some lineEnd ∧
      (buf ++ s).take lineEnd = buf.take lineEnd ∧
      (headerSlice hdrEnd lineEnd).of (buf ++ s) = (headerSlice hdrEnd lineEnd).of buf :=
  ⟨findHdrEnd_append hend s, memchr_append hline s,
    List.take_append_of_le_length (Nat.le_of_lt (memchr_bound hline)),
    Slice.of_append _ _ _ (headerSlice_inside hend lineEnd)⟩

theorem parse_complete_append {buf : Bytes} {m : Msg} (h : parse buf = .complete m) (s : Bytes) :
    parse (buf ++ s) = .complete m := by
  obtain ⟨hdrEnd, lineEnd, f, hend, hline, hstart, hf, hlen, hm⟩ := parse_complete h
  obtain ⟨hend', hline', htake, hslice⟩ := parse_head hend hline s
  have hin := findHdrEnd_bound hend
  have henough : ¬ (buf ++ s).length - (hdrEnd + 4) < f.contentLength := by
    rw [List.length_append]
    omega
  unfold parse
  simp only [hend', hline', htake, hslice, hstart, hf, henough, if_false]
  exact congrArg _ hm.symm

theorem parse_error_append {buf : Bytes} (h : parse buf = .error) (s : Bytes) :
    parse (buf ++ s) = .error := by
  unfold parse at h ⊢
  cases hend : findHdrEnd buf with
  | none => simp [hend] at h
  | some hdrEnd =>
      cases hline : memchr 10 buf with
      | none => simp [hend, hline] at h
      | some lineEnd =>
          obtain ⟨hend', hline', htake, hslice⟩ := parse_head hend hline s
          simp only [hend, hline] at h
          simp only [hend', hline', htake, hslice]
          cases hstart : parseStartLine (stripCr (buf.take lineEnd)) with
          | none => rfl
          | some start =>
              simp only [hstart] at h
              cases hf : parseFields ((headerSlice hdrEnd lineEnd).of buf) start.keepAlive with
              | none => simp [hf]
              | some f =>
                  simp only [hf] at h
                  split at h <;> cases h

theorem parse_consumed_le {buf : Bytes} {m : Msg} (h : parse buf = .complete m) :
    m.consumed ≤ buf.length := by
  obtain ⟨hdrEnd, lineEnd, f, hend, -, -, -, hlen, hm⟩ := parse_complete h
  have := findHdrEnd_bound hend
  rw [hm]
  simp only [Msg.consumed]
  omega

theorem parse_consumed_pos {buf : Bytes} {m : Msg} (h : parse buf = .complete m) :
    0 < m.consumed := by
  obtain ⟨hdrEnd, lineEnd, f, -, -, -, -, -, hm⟩ := parse_complete h
  rw [hm]
  simp only [Msg.consumed]
  omega

-- The pointers of the first line point into it.
theorem parseStartLine_slices {line : Bytes} {start : StartLine}
    (h : parseStartLine line = some start) :
    (∀ sl, start.methodRef = some sl → sl.off + sl.len ≤ line.length) ∧
      ∀ sl, start.target = some sl → sl.off + sl.len ≤ line.length := by
  unfold parseStartLine at h
  split at h
  · unfold parseStatusLine at h
    cases hsp : memchr 32 line with
    | none => simp [hsp] at h
    | some sp1 =>
        simp only [hsp] at h
        split at h
        · cases h
        · split at h
          · cases h
          · cases h
            exact ⟨by simp, by simp⟩
  · unfold parseRequestLine at h
    cases hsp : memchr 32 line with
    | none => simp [hsp] at h
    | some sp1 =>
        simp only [hsp] at h
        cases hsp2 : memchr 32 (line.drop (sp1 + 1)) with
        | none => simp [hsp2] at h
        | some tlen =>
            have h1 := memchr_bound hsp
            have h2 := memchr_bound hsp2
            rw [List.length_drop] at h2
            simp only [hsp2] at h
            split at h
            · cases h
            · split at h
              · cases h
              · cases h
                constructor
                · rintro sl ⟨⟩
                  simp only
                  omega
                · rintro sl ⟨⟩
                  simp only
                  omega

theorem stripCr_length_le (line : Bytes) : (stripCr line).length ≤ line.length := by
  unfold stripCr
  split
  · simp
  · exact Nat.le_refl _

-- A message that is not complete yet: every proper prefix of a complete one.
theorem parse_proper_prefix {p q : Bytes} {m : Msg} (h : parse (p ++ q) = .complete m)
    (hall : m.consumed = (p ++ q).length) (hq : q ≠ []) : parse p = .more := by
  cases hp : parse p with
  | error =>
      rw [parse_error_append hp q] at h
      cases h
  | more => rfl
  | complete m' =>
      rw [parse_complete_append hp q] at h
      cases h
      have hle := parse_consumed_le hp
      have hpos := List.length_pos_iff.mpr hq
      rw [List.length_append] at hall
      omega

-- A request has a method and a target.
theorem parseStartLine_request {line : Bytes} {start : StartLine}
    (h : parseStartLine line = some start) (hreq : start.isResponse = false) :
    start.methodRef.isSome = true ∧ start.target.isSome = true := by
  unfold parseStartLine at h
  split at h
  · unfold parseStatusLine at h
    cases hsp : memchr 32 line with
    | none => simp [hsp] at h
    | some sp1 =>
        simp only [hsp] at h
        split_ifs at h
        cases h
        cases hreq
  · unfold parseRequestLine at h
    cases hsp : memchr 32 line with
    | none => simp [hsp] at h
    | some sp1 =>
        simp only [hsp] at h
        cases hsp2 : memchr 32 (line.drop (sp1 + 1)) with
        | none => simp [hsp2] at h
        | some tlen =>
            simp only [hsp2] at h
            split_ifs at h
            cases h
            exact ⟨rfl, rfl⟩

-- All the pointers of a message point into the buffer.
theorem parse_slices {buf : Bytes} {m : Msg} (h : parse buf = .complete m) :
    (∀ sl, m.start.methodRef = some sl → sl.off + sl.len ≤ buf.length) ∧
      (∀ sl, m.start.target = some sl → sl.off + sl.len ≤ buf.length) ∧
      (m.headers.len = 0 ∨ m.headers.off + m.headers.len ≤ buf.length) ∧
      m.body.off + m.body.len ≤ buf.length := by
  obtain ⟨hdrEnd, lineEnd, f, hend, hline, hstart, -, -, hm⟩ := parse_complete h
  obtain ⟨hmeth, htarget⟩ := parseStartLine_slices hstart
  have hlt := memchr_bound hline
  have hfirst : (stripCr (buf.take lineEnd)).length ≤ lineEnd :=
    (stripCr_length_le _).trans (List.length_take_le _ _)
  have hheaders : m.headers = headerSlice hdrEnd lineEnd := by rw [hm]
  refine ⟨fun sl hs => ?_, fun sl hs => ?_, ?_, parse_consumed_le h⟩
  · have := hmeth sl hs
    omega
  · have := htarget sl hs
    omega
  · rw [hheaders]
    exact headerSlice_inside hend lineEnd

-- ---- the length of a field ----

theorem headerLinesAux_length {line rest l : Bytes} (h : l ∈ headerLinesAux line rest) :
    l.length ≤ line.length + rest.length := by
  induction rest generalizing line with
  | nil => cases h
  | cons b rest ih =>
      rw [headerLinesAux] at h
      rw [List.length_cons]
      split at h
      · rcases List.mem_cons.mp h with rfl | h
        · rw [List.length_reverse]
          omega
        · have := ih h
          rw [List.length_nil] at this
          omega
      · have := ih h
        rw [List.length_cons] at this
        omega

theorem trim_length_le (v : Bytes) : (trim v).length ≤ v.length :=
  ((List.rdropWhile_prefix _ _).length_le).trans (List.dropWhile_sublist _).length_le

theorem findHeaderNthIn_length {name v : Bytes} {lines : List Bytes} {nth n : Nat}
    (hlines : ∀ l ∈ lines, l.length ≤ n) (h : findHeaderNthIn name lines nth = some v) :
    v.length ≤ n := by
  induction lines generalizing nth with
  | nil => cases h
  | cons line rest ih =>
      have hrest : ∀ l ∈ rest, l.length ≤ n := fun l hl => hlines l (List.mem_cons_of_mem _ hl)
      have hline := hlines line (List.mem_cons_self ..)
      rw [findHeaderNthIn] at h
      cases hf : headerField line with
      | none =>
          rw [hf] at h
          exact ih hrest h
      | some field =>
          have hv : field.2.length ≤ n := by
            unfold headerField at hf
            cases hc : memchr 58 line with
            | none => simp [hc] at hf
            | some i =>
                simp only [hc, Option.some.injEq] at hf
                subst hf
                exact (trim_length_le _).trans (by rw [List.length_drop]; omega)
          rw [hf] at h
          dsimp only at h
          split at h
          · cases nth with
            | zero =>
                cases h
                exact hv
            | succ k => exact ih hrest h
          · exact ih hrest h

-- A value of the header block is no longer than the block.
theorem findHeader_length {buf v : Bytes} {m : Msg} {name : Bytes}
    (h : findHeader buf m name = some v) : v.length ≤ m.headers.len := by
  refine findHeaderNthIn_length (fun l hl => ?_) h
  obtain ⟨l', hl', rfl⟩ := List.mem_map.mp hl
  have hblock := headerLinesAux_length hl'
  have hslice : (m.headers.of buf).length ≤ m.headers.len := List.length_take_le _ _
  rw [List.length_nil, Nat.zero_add] at hblock
  exact (stripCr_length_le l').trans (hblock.trans hslice)

-- ---- messages one after the other ----

-- The search ends at the first occurrence.
theorem findHdrEnd_first {buf : Bytes} {i : Nat} (h : findHdrEnd buf = some i) :
    crlf2 <+: buf.drop i ∧ ∀ j < i, ¬ crlf2 <+: buf.drop j := by
  induction buf generalizing i with
  | nil => cases h
  | cons b rest ih =>
      rw [findHdrEnd] at h
      split at h
      · next hpre =>
        cases h
        exact ⟨List.isPrefixOf_iff_prefix.mp hpre, fun j hj => absurd hj (Nat.not_lt_zero j)⟩
      · next hno =>
        obtain ⟨j, hj, rfl⟩ := Option.map_eq_some_iff.mp h
        obtain ⟨hhere, hbefore⟩ := ih hj
        refine ⟨hhere, fun k hk => ?_⟩
        cases k with
        | zero => exact fun hp => hno (List.isPrefixOf_iff_prefix.mpr hp)
        | succ k => exact hbefore k (Nat.lt_of_succ_lt_succ hk)

theorem findHdrEnd_some_of_prefix {buf : Bytes} {i : Nat} (h : crlf2 <+: buf.drop i) :
    ∃ j ≤ i, findHdrEnd buf = some j := by
  induction buf generalizing i with
  | nil =>
      rw [List.drop_nil] at h
      cases List.prefix_nil.mp h
  | cons b rest ih =>
      rw [findHdrEnd]
      split
      · exact ⟨0, Nat.zero_le i, rfl⟩
      · next hno =>
        cases i with
        | zero => exact absurd (List.isPrefixOf_iff_prefix.mpr h) hno
        | succ i =>
            obtain ⟨j, hj, hfind⟩ := ih h
            exact ⟨j + 1, Nat.succ_le_succ hj, by rw [hfind]; rfl⟩

-- The first LF is the one of the CRLFCRLF or stands before it: `headers_len` does not wrap.
theorem lineEnd_le {buf : Bytes} {hdrEnd lineEnd : Nat} (hend : findHdrEnd buf = some hdrEnd)
    (hline : memchr 10 buf = some lineEnd) : lineEnd ≤ hdrEnd + 1 := by
  obtain ⟨tail, htail⟩ := (findHdrEnd_first hend).1
  have hbound := findHdrEnd_bound hend
  have hinside : hdrEnd + 1 < buf.length := by omega
  have hlf : buf[hdrEnd + 1] = 10 := by
    have hdrop : (buf.drop hdrEnd)[1]? = some 10 := by
      rw [← htail]
      rfl
    rw [List.getElem?_drop] at hdrop
    exact (List.getElem?_eq_some_iff.mp hdrop).2
  obtain ⟨_, _, hbefore⟩ := List.findIdx?_eq_some_iff_getElem.mp hline
  by_contra hlt
  exact hbefore (hdrEnd + 1) (Nat.not_le.mp hlt) (by simp [hlf])

theorem findHdrEnd_take {buf : Bytes} {i n : Nat} (h : findHdrEnd buf = some i) (hn : i + 4 ≤ n) :
    findHdrEnd (buf.take n) = some i := by
  have hpre : crlf2 <+: (buf.take n).drop i := by
    rw [List.drop_take, List.prefix_take_iff]
    refine ⟨(findHdrEnd_first h).1, ?_⟩
    simp only [crlf2, List.length_cons, List.length_nil]
    omega
  obtain ⟨j, -, hj⟩ := findHdrEnd_some_of_prefix hpre
  have hsame := findHdrEnd_append hj (buf.drop n)
  rw [List.take_append_drop, h] at hsame
  rw [hj, hsame]

theorem memchr_take {c : Byte} {buf : Bytes} {i n : Nat} (h : memchr c buf = some i) (hn : i < n) :
    memchr c (buf.take n) = some i := by
  unfold memchr at h ⊢
  rw [List.findIdx?_take, h]
  simp [hn]

-- What the verdict on a complete message rests on ends with the message.
theorem parse_take_consumed {buf : Bytes} {m : Msg} (h : parse buf = .complete m) :
    parse (buf.take m.consumed) = .complete m := by
  have hlen : (buf.take m.consumed).length = m.consumed := by
    rw [List.length_take]
    exact Nat.min_eq_left (parse_consumed_le h)
  obtain ⟨hdrEnd, lineEnd, f, hend, hline, hstart, hf, -, hm⟩ := parse_complete h
  have hcons : m.consumed = hdrEnd + 4 + f.contentLength := by
    rw [hm]
    rfl
  have hle := lineEnd_le hend hline
  have hend' : findHdrEnd (buf.take m.consumed) = some hdrEnd := findHdrEnd_take hend (by omega)
  have hline' : memchr 10 (buf.take m.consumed) = some lineEnd := memchr_take hline (by omega)
  obtain ⟨-, -, htake, hslice⟩ := parse_head hend' hline' (buf.drop m.consumed)
  rw [List.take_append_drop] at htake hslice
  have henough : ¬ (buf.take m.consumed).length - (hdrEnd + 4) < f.contentLength := by omega
  rw [htake] at hstart
  rw [hslice] at hf
  rw [parse]
  simp only [hend', hline', hstart, hf, henough, if_false]
  exact congrArg _ hm.symm

-- The bytes of one message, none before it and none after.
def Msg.Whole (bytes : Bytes) (m : Msg) : Prop := parse bytes = .complete m ∧ m.consumed = bytes.length

-- The complete messages at the head of a buffer, each with its bytes.
def messages (buf : Bytes) : List (Bytes × Msg) :=
  match _h : parse buf with
  | .complete m => (buf.take m.consumed, m) :: messages (buf.drop m.consumed)
  | _ => []
termination_by buf.length
decreasing_by
  have := parse_consumed_pos _h
  have := parse_consumed_le _h
  rw [List.length_drop]
  omega

theorem messages_cons {bytes : Bytes} {m : Msg} (h : m.Whole bytes) (rest : Bytes) :
    messages (bytes ++ rest) = (bytes, m) :: messages rest := by
  obtain ⟨hparse, hall⟩ := h
  have hcomplete := parse_complete_append hparse rest
  rw [messages]
  split
  · next m' hm' =>
    rw [hcomplete] at hm'
    cases hm'
    rw [hall, List.take_left, List.drop_left]
  · next hno => exact absurd hcomplete (hno m)

theorem messages_append {msgs : List (Bytes × Msg)} (h : ∀ p ∈ msgs, p.2.Whole p.1) (rest : Bytes) :
    messages (msgs.flatMap Prod.fst ++ rest) = msgs ++ messages rest := by
  induction msgs with
  | nil => rfl
  | cons p msgs ih =>
      rw [List.flatMap_cons, List.append_assoc, messages_cons (h p (List.mem_cons_self ..)),
        ih fun q hq => h q (List.mem_cons_of_mem _ hq)]
      rfl

-- Every message that is taken from a buffer is one.
theorem messages_whole (buf : Bytes) : ∀ p ∈ messages buf, p.2.Whole p.1 := by
  fun_induction messages buf with
  | case1 buf m h ih =>
      intro p hp
      rcases List.mem_cons.mp hp with rfl | hp
      · refine ⟨parse_take_consumed h, ?_⟩
        rw [List.length_take]
        exact (Nat.min_eq_left (parse_consumed_le h)).symm
      · exact ih p hp
  | case2 buf hno => simp

-- What a message says about the buffer it was read from.
structure Msg.Inside (buf : Bytes) (m : Msg) : Prop where
  request : m.start.isResponse = false → m.start.methodRef.isSome = true ∧ m.start.target.isSome = true
  method : ∀ sl, m.start.methodRef = some sl → sl.off + sl.len ≤ buf.length
  target : ∀ sl, m.start.target = some sl → sl.off + sl.len ≤ buf.length
  headers : m.headers.off + m.headers.len ≤ buf.length
  body : m.body.off + m.body.len ≤ buf.length
  length : m.body.len = m.contentLength
  -- the body follows the first CRLFCRLF
  after : ∃ i, m.body.off = i + 4 ∧ crlf2 <+: buf.drop i ∧ ∀ j < i, ¬ crlf2 <+: buf.drop j

theorem parse_inside {buf : Bytes} {m : Msg} (h : parse buf = .complete m) : m.Inside buf := by
  obtain ⟨hmeth, htarget, -, hbody⟩ := parse_slices h
  obtain ⟨hdrEnd, lineEnd, f, hend, hline, hstart, -, -, hm⟩ := parse_complete h
  have hle := lineEnd_le hend hline
  have hbound := findHdrEnd_bound hend
  refine ⟨parseStartLine_request hstart, hmeth, htarget, ?_, hbody, ?_, hdrEnd, ?_, findHdrEnd_first hend⟩
  · rw [hm]
    simp only [headerSlice]
    omega
  · rw [hm]
  · rw [hm]

-- A verdict stands whatever arrives after it, and the messages of a stream are found again one
-- after the other.
theorem parse_stable (b s : Bytes) (msgs : List (Bytes × Msg)) (hmsgs : ∀ p ∈ msgs, p.2.Whole p.1) :
    (∀ m, parse b = .complete m →
      parse (b ++ s) = .complete m ∧ m.Inside b ∧
        ∀ name, findHeader (b ++ s) m name = findHeader b m name) ∧
      (parse b = .error → parse (b ++ s) = .error) ∧
      messages (msgs.flatMap Prod.fst) = msgs := by
  refine ⟨fun m hm => ⟨parse_complete_append hm s, parse_inside hm, fun name => ?_⟩,
    fun he => parse_error_append he s, ?_⟩
  · unfold findHeader
    rw [Slice.of_append _ _ _ (.inr (parse_inside hm).headers)]
  · have hnil : messages [] = [] := by
      rw [messages]
      rfl
    have happend := messages_append hmsgs []
    rwa [hnil, List.append_nil, List.append_nil] at happend

theorem parse_stable_repeated :
    parse (repeatedLength ++ [13]) = .complete repeatedLengthMsg ∧
      messages (repeatedLength ++ repeatedLength) =
        [(repeatedLength, repeatedLengthMsg), (repeatedLength, repeatedLengthMsg)] := by
  have hparse : parse repeatedLength = .complete repeatedLengthMsg := by decide +kernel
  have hwhole : repeatedLengthMsg.Whole repeatedLength := ⟨hparse, by decide +kernel⟩
  obtain ⟨hstable, -, hmsgs⟩ := parse_stable repeatedLength [13]
    [(repeatedLength, repeatedLengthMsg), (repeatedLength, repeatedLengthMsg)] (by simp [hwhole])
  exact ⟨(hstable _ hparse).1, by simpa using hmsgs⟩

end Sevent.Http
