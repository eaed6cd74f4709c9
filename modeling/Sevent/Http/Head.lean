import Sevent.Http.Stability

-- Messages without a body as they are written, line by line, and how they are parsed.
namespace Sevent.Http

def crlf : Bytes := [13, 10]

-- Neither CR nor LF.
def Unbroken (l : Bytes) : Prop := ∀ b ∈ l, b ≠ 13 ∧ b ≠ 10

def fieldLine (f : Bytes × Bytes) : Bytes := f.1 ++ 58 :: 32 :: f.2

def fieldBlock (fields : List (Bytes × Bytes)) : Bytes := fields.flatMap fun f => fieldLine f ++ crlf

def headOf (first : Bytes) (fields : List (Bytes × Bytes)) : Bytes :=
  first ++ crlf ++ fieldBlock fields ++ crlf

-- A field whose name and value can be told apart.
structure Field (f : Bytes × Bytes) : Prop where
  name : Unbroken f.1
  value : Unbroken f.2
  colon : 58 ∉ f.1

theorem Field.line {f : Bytes × Bytes} (h : Field f) : Unbroken (fieldLine f) := by
  intro b hb
  simp only [fieldLine, List.mem_append, List.mem_cons] at hb
  rcases hb with hb | rfl | rfl | hb
  · exact h.name b hb
  · decide
  · decide
  · exact h.value b hb

-- ---- the end of the head ----

theorem findHdrEnd_skip {l : Bytes} (h : ∀ b ∈ l, b ≠ 13) (rest : Bytes) :
    findHdrEnd (l ++ rest) = (findHdrEnd rest).map (· + l.length) := by
  induction l with
  | nil => simp
  | cons b l ih =>
      have hb : b ≠ 13 := h b List.mem_cons_self
      rw [List.cons_append, findHdrEnd, if_neg, ih fun x hx => h x (List.mem_cons_of_mem b hx),
        Option.map_map]
      · congr 1
      · rw [List.isPrefixOf_iff_prefix]
        exact fun hp => hb (List.cons_prefix_cons.mp hp).1.symm

theorem findHdrEnd_line {b : Byte} (hb : b ≠ 13) (rest : Bytes) :
    findHdrEnd (crlf ++ b :: rest) = (findHdrEnd (b :: rest)).map (· + 2) := by
  have hfirst : ¬ crlf2.isPrefixOf (crlf ++ b :: rest) = true := by
    rw [List.isPrefixOf_iff_prefix]
    intro hp
    exact hb (List.cons_prefix_cons.mp (List.cons_prefix_cons.mp (List.cons_prefix_cons.mp hp).2).2).1.symm
  have hsecond : ¬ crlf2.isPrefixOf (10 :: b :: rest) = true := by
    rw [List.isPrefixOf_iff_prefix]
    exact fun hp => absurd (List.cons_prefix_cons.mp hp).1 (by decide)
  have hcons : crlf ++ b :: rest = 13 :: 10 :: b :: rest := rfl
  rw [hcons] at hfirst ⊢
  rw [findHdrEnd, if_neg hfirst, findHdrEnd, if_neg hsecond, Option.map_map]
  congr 1

theorem fieldBlock_cons (f : Bytes × Bytes) (fields : List (Bytes × Bytes)) :
    fieldBlock (f :: fields) = fieldLine f ++ crlf ++ fieldBlock fields := List.flatMap_cons

theorem fieldBlock_append (fs gs : List (Bytes × Bytes)) :
    fieldBlock (fs ++ gs) = fieldBlock fs ++ fieldBlock gs := List.flatMap_append

theorem findHdrEnd_block {fields : List (Bytes × Bytes)} (h : ∀ f ∈ fields, Field f) (rest : Bytes) :
    findHdrEnd (crlf ++ fieldBlock fields ++ crlf ++ rest) = some (fieldBlock fields).length := by
  induction fields with
  | nil => rfl
  | cons f fields ih =>
      have hline := (h f List.mem_cons_self).line
      obtain ⟨b, more, hb⟩ : ∃ b more, fieldLine f = b :: more := by
        unfold fieldLine
        cases f.1 with
        | nil => exact ⟨_, _, rfl⟩
        | cons b more => exact ⟨_, _, rfl⟩
      have hfirst : b ≠ 13 := (hline b (by rw [hb]; exact List.mem_cons_self)).1
      have hsplit : crlf ++ fieldBlock (f :: fields) ++ crlf ++ rest =
          crlf ++ b :: (more ++ (crlf ++ fieldBlock fields ++ crlf ++ rest)) := by
        rw [fieldBlock_cons, hb]
        simp only [List.append_assoc, List.cons_append]
      rw [hsplit, findHdrEnd_line hfirst, ← List.cons_append, ← hb,
        findHdrEnd_skip fun x hx => (hline x hx).1, ih fun g hg => h g (List.mem_cons_of_mem f hg)]
      rw [fieldBlock_cons]
      simp [crlf]
      omega

-- ---- the lines of the block ----

theorem headerLinesAux_line {l : Bytes} (h : ∀ b ∈ l, b ≠ 10) (acc rest : Bytes) :
    headerLinesAux acc (l ++ crlf ++ rest) = (acc.reverse ++ l ++ [13]) :: headerLinesAux [] rest := by
  induction l generalizing acc with
  | nil => simp [crlf, headerLinesAux]
  | cons b l ih =>
      rw [List.cons_append, List.cons_append, headerLinesAux, if_neg (h b List.mem_cons_self),
        ih fun x hx => h x (List.mem_cons_of_mem b hx)]
      simp

theorem stripCr_cr (l : Bytes) : stripCr (l ++ [13]) = l := by
  simp [stripCr]

theorem headerLines_block {fields : List (Bytes × Bytes)} (h : ∀ f ∈ fields, Field f) :
    headerLines (fieldBlock fields) = fields.map fieldLine := by
  unfold headerLines
  induction fields with
  | nil => rfl
  | cons f fields ih =>
      have hline := (h f List.mem_cons_self).line
      rw [fieldBlock_cons, headerLinesAux_line fun b hb => (hline b hb).2, List.map_cons,
        List.reverse_nil, List.nil_append, stripCr_cr, ih fun g hg => h g (List.mem_cons_of_mem f hg),
        List.map_cons]

theorem memchr_first {c : Byte} {l : Bytes} (h : c ∉ l) (rest : Bytes) :
    memchr c (l ++ c :: rest) = some l.length := by
  unfold memchr
  rw [List.findIdx?_append, List.findIdx?_eq_none_iff.mpr, List.findIdx?_cons]
  · simp
  · intro x hx
    have hne : x ≠ c := fun hxc => h (hxc ▸ hx)
    simpa using hne

theorem memchr_none {c : Byte} {l : Bytes} (h : c ∉ l) : memchr c l = none := by
  unfold memchr
  rw [List.findIdx?_eq_none_iff]
  intro x hx
  have hne : x ≠ c := fun hxc => h (hxc ▸ hx)
  simpa using hne

theorem memchr_split {c : Byte} {l : Bytes} {i : Nat} (h : memchr c l = some i) :
    l = l.take i ++ c :: l.drop (i + 1) ∧ c ∉ l.take i ∧ (l.take i).length = i := by
  obtain ⟨hlt, heq, hbefore⟩ := List.findIdx?_eq_some_iff_getElem.mp h
  have hc : l[i] = c := beq_iff_eq.mp heq
  refine ⟨?_, fun hmem => ?_, List.length_take_of_le (Nat.le_of_lt hlt)⟩
  · rw [← hc, ← List.drop_eq_getElem_cons hlt, List.take_append_drop]
  · obtain ⟨j, hj, hget⟩ := List.getElem_of_mem hmem
    rw [List.length_take] at hj
    rw [List.getElem_take] at hget
    exact hbefore j (by omega) (beq_iff_eq.mpr hget)

theorem headerField_line {f : Bytes × Bytes} (h : Field f) :
    headerField (fieldLine f) = some (f.1, trim f.2) := by
  unfold headerField fieldLine
  rw [memchr_first h.colon]
  have hdrop : (f.1 ++ 58 :: 32 :: f.2).drop (f.1.length + 1) = 32 :: f.2 := by
    rw [← List.drop_drop, List.drop_left]
    rfl
  dsimp only
  rw [List.take_left, hdrop]
  rfl

theorem trim_eq {v : Bytes} (hfirst : ∀ b ∈ v.head?, isBlank b = false)
    (hlast : ∀ b ∈ v.getLast?, isBlank b = false) : trim v = v := by
  have hl : ltrim v = v := by
    unfold ltrim
    cases v with
    | nil => rfl
    | cons b v => rw [List.dropWhile_cons_of_neg (by rw [hfirst b rfl]; decide)]
  unfold trim rtrim
  rw [hl, List.rdropWhile_eq_self_iff]
  intro hne
  rw [hlast _ (List.getLast?_eq_getLast_of_ne_nil hne)]
  decide

theorem findHeaderNth_block {fields : List (Bytes × Bytes)} (h : ∀ f ∈ fields, Field f) (name : Bytes)
    (nth : Nat) : findHeaderNth (fieldBlock fields) name nth =
      ((fields.filter fun f => ciEq f.1 name)[nth]?).map fun f => trim f.2 := by
  unfold findHeaderNth
  rw [headerLines_block h]
  induction fields generalizing nth with
  | nil => rfl
  | cons f fields ih =>
      have hrest := ih fun g hg => h g (List.mem_cons_of_mem f hg)
      rw [List.map_cons, findHeaderNthIn, headerField_line (h f List.mem_cons_self)]
      dsimp only
      by_cases hname : ciEq f.1 name = true
      · rw [if_pos hname, List.filter_cons, if_pos hname]
        cases nth with
        | zero => rfl
        | succ k => exact hrest k
      · rw [if_neg hname, List.filter_cons, if_neg hname]
        exact hrest nth

-- The first field of the name.
theorem findHeaderIn_block {fields : List (Bytes × Bytes)} (h : ∀ f ∈ fields, Field f) (name : Bytes) :
    findHeaderIn (fieldBlock fields) name =
      (fields.find? fun f => ciEq f.1 name).map fun f => trim f.2 := by
  rw [findHeaderIn, findHeaderNth_block h, ← List.head?_eq_getElem?, List.head?_filter]

-- ---- the message ----

def headMsg (start : StartLine) (f : Fields) (first : Bytes) (fields : List (Bytes × Bytes)) : Msg where
  start := start
  upgrade := f.upgrade
  keepAlive := f.keepAlive
  contentLength := 0
  body := ⟨(headOf first fields).length, 0⟩
  headers := ⟨first.length + 2, (fieldBlock fields).length⟩

theorem headOf_split (first : Bytes) (fields : List (Bytes × Bytes)) (rest : Bytes) :
    headOf first fields ++ rest = first ++ (crlf ++ fieldBlock fields ++ crlf ++ rest) := by
  simp only [headOf, List.append_assoc]

theorem findHdrEnd_headOf {first : Bytes} {fields : List (Bytes × Bytes)} (hfirst : Unbroken first)
    (hfields : ∀ f ∈ fields, Field f) (rest : Bytes) :
    findHdrEnd (headOf first fields ++ rest) = some ((fieldBlock fields).length + first.length) := by
  rw [headOf_split, findHdrEnd_skip fun b hb => (hfirst b hb).1, findHdrEnd_block hfields]
  rfl

theorem headMsg_headers (start : StartLine) (f : Fields) (first : Bytes)
    (fields : List (Bytes × Bytes)) (rest : Bytes) :
    (headMsg start f first fields).headers.of (headOf first fields ++ rest) = fieldBlock fields := by
  unfold headMsg Slice.of
  dsimp only
  rw [headOf_split, ← List.drop_drop, List.drop_left]
  have hdrop : (crlf ++ fieldBlock fields ++ crlf ++ rest).drop 2 = fieldBlock fields ++ (crlf ++ rest) := by
    simp [crlf]
  rw [hdrop, List.take_left]

-- The body is what follows the head.
def bodyMsg (start : StartLine) (f : Fields) (first : Bytes) (fields : List (Bytes × Bytes)) : Msg :=
  { headMsg start f first fields with
    contentLength := f.contentLength, body := ⟨(headOf first fields).length, f.contentLength⟩ }

theorem parse_bodyOf {first : Bytes} {fields : List (Bytes × Bytes)} (hfirst : Unbroken first)
    (hfields : ∀ f ∈ fields, Field f) {start : StartLine} (hstart : parseStartLine first = some start)
    {f : Fields} (hf : parseFields (fieldBlock fields) start.keepAlive = some f) {rest : Bytes}
    (hrest : f.contentLength ≤ rest.length) :
    parse (headOf first fields ++ rest) = .complete (bodyMsg start f first fields) := by
  have hend := findHdrEnd_headOf hfirst hfields rest
  have hline : memchr 10 (headOf first fields ++ rest) = some (first.length + 1) := by
    have hcr : headOf first fields ++ rest =
        (first ++ [13]) ++ 10 :: (fieldBlock fields ++ crlf ++ rest) := by
      rw [headOf_split]
      simp [crlf]
    rw [hcr, memchr_first, List.length_append]
    · rfl
    · intro hmem
      rcases List.mem_append.mp hmem with h | h
      · exact (hfirst 10 h).2 rfl
      · simp at h
  have htake : (headOf first fields ++ rest).take (first.length + 1) = first ++ [13] := by
    rw [headOf_split, List.take_length_add_append]
    rfl
  have hslice : headerSlice ((fieldBlock fields).length + first.length) (first.length + 1) =
      (headMsg start f first fields).headers := by
    unfold headerSlice headMsg
    congr 1
    omega
  have hoff : (fieldBlock fields).length + first.length + 4 = (headOf first fields).length := by
    simp only [headOf, crlf, List.length_append, List.length_cons, List.length_nil]
    omega
  unfold parse
  rw [hend]
  dsimp only
  rw [hline]
  dsimp only
  rw [htake, stripCr_cr, hstart]
  dsimp only
  rw [hslice, headMsg_headers, hf]
  dsimp only
  have hwhole : ¬ (headOf first fields ++ rest).length - (headOf first fields).length < f.contentLength := by
    rw [List.length_append]
    omega
  rw [hoff, if_neg hwhole]
  rfl

theorem parse_headOf {first : Bytes} {fields : List (Bytes × Bytes)} (hfirst : Unbroken first)
    (hfields : ∀ f ∈ fields, Field f) {start : StartLine} (hstart : parseStartLine first = some start)
    {f : Fields} (hf : parseFields (fieldBlock fields) start.keepAlive = some f)
    (hlen : f.contentLength = 0) (rest : Bytes) :
    parse (headOf first fields ++ rest) = .complete (headMsg start f first fields) := by
  have hmsg : bodyMsg start f first fields = headMsg start f first fields := by
    unfold bodyMsg
    rw [hlen]
    rfl
  rw [parse_bodyOf hfirst hfields hstart hf (by rw [hlen]; exact Nat.zero_le _), hmsg]

theorem findHeader_headOf {first : Bytes} {fields : List (Bytes × Bytes)}
    (hfields : ∀ f ∈ fields, Field f) (start : StartLine) (f : Fields) (name rest : Bytes) :
    findHeader (headOf first fields ++ rest) (headMsg start f first fields) name =
      (fields.find? fun f => ciEq f.1 name).map fun f => trim f.2 := by
  rw [findHeader, headMsg_headers, findHeaderIn_block hfields]

end Sevent.Http
