import Mathlib.Data.Bool.AllAny
import Sevent.Ws.Response
import Sevent.Ws.Room

-- The parameters of permessage-deflate in a response, and the context a client makes of them.
namespace Sevent.Ws

open Sevent.Http (Msg findHeader isBlank isDigit decimalValue)

-- ---- strstr over words ----

def isNameChar (b : Byte) : Bool := b == 45 || b == 95 || (97 ≤ b && b ≤ 122)

section

variable {needle : Bytes}

theorem strstrAfter_self (hne : needle ≠ []) (rest : Bytes) :
    strstrAfter needle (needle ++ rest) = some rest := by
  cases needle with
  | nil => exact absurd rfl hne
  | cons n more =>
      rw [List.cons_append, strstrAfter, if_pos]
      · rw [← List.cons_append, List.drop_left]
      · rw [List.isPrefixOf_iff_prefix]
        exact List.prefix_append (n :: more) rest

theorem strstrAfter_nil (hne : needle ≠ []) : strstrAfter needle [] = none := by
  rw [strstrAfter, if_neg hne]

-- Bytes that the needle does not begin with.
theorem strstrAfter_skip {b : Bytes} (h : ∀ x ∈ b, needle.head? ≠ some x) (hne : needle ≠ [])
    (rest : Bytes) : strstrAfter needle (b ++ rest) = strstrAfter needle rest := by
  induction b with
  | nil => rfl
  | cons x b ih =>
      rw [List.cons_append, strstrAfter, if_neg]
      · exact ih fun y hy => h y (List.mem_cons_of_mem x hy)
      · rw [List.isPrefixOf_iff_prefix]
        intro hp
        cases needle with
        | nil => exact hne rfl
        | cons n more => exact h x List.mem_cons_self (by rw [(List.cons_prefix_cons.mp hp).1]; rfl)

-- A word that does not hold the needle.
theorem strstrAfter_word {word rest : Bytes} (hname : ∀ x ∈ needle, isNameChar x = true)
    (hend : ∀ x ∈ rest.head?, isNameChar x = false) (hno : ¬ needle <:+: word) :
    strstrAfter needle (word ++ rest) = strstrAfter needle rest := by
  induction word with
  | nil => rfl
  | cons w word ih =>
      rw [List.cons_append, strstrAfter, if_neg]
      · exact ih fun h => hno (h.trans (List.infix_cons (List.infix_refl word)))
      · rw [List.isPrefixOf_iff_prefix, ← List.cons_append]
        intro hp
        rcases Nat.le_total needle.length (w :: word).length with hle | hle
        · exact hno (List.prefix_of_prefix_length_le hp (List.prefix_append _ _) hle).isInfix
        · obtain ⟨t, ht⟩ := List.prefix_of_prefix_length_le (List.prefix_append _ _) hp hle
          rw [← ht, List.prefix_append_right_inj] at hp
          cases t with
          | nil => exact hno ⟨[], [], by rw [← ht]; simp⟩
          | cons x t =>
              obtain ⟨more, rfl⟩ := hp
              have hx := hname x (by rw [← ht]; simp)
              rw [hend x rfl] at hx
              cases hx

end

-- ---- the extension header of a response ----

-- `name=N`, with the blanks that may stand around the sign, or with N in quotes.
structure BitsValue where
  gap : Bytes
  lead : Bytes
  quoted : Bool
  digits : Bytes
  gap_blank : ∀ b ∈ gap, isBlank b = true
  lead_blank : ∀ b ∈ lead, isBlank b = true
  digits_ne : digits ≠ []
  digits_all : ∀ b ∈ digits, isDigit b = true

def BitsValue.quote (v : BitsValue) : Bytes := if v.quoted then [34] else []

def BitsValue.bytes (v : BitsValue) : Bytes :=
  v.gap ++ 61 :: (v.lead ++ v.quote ++ v.digits ++ v.quote)

def BitsValue.number (v : BitsValue) : Nat := decimalValue v.digits

inductive Param where
  | serverNct
  | clientNct
  | serverBits (v : Option BitsValue)
  | clientBits (v : Option BitsValue)

def Param.name : Param → Bytes
  | .serverNct => serverNoCtx
  | .clientNct => clientNoCtx
  | .serverBits _ => serverMaxWb
  | .clientBits _ => clientMaxWb

def paramNames : List Bytes := [serverNoCtx, clientNoCtx, serverMaxWb, clientMaxWb]

theorem Param.name_mem (p : Param) : p.name ∈ paramNames := by
  cases p <;> simp [paramNames, Param.name]

def Param.value : Param → Option BitsValue
  | .serverBits v => v
  | .clientBits v => v
  | _ => none

-- A parameter in its place: the blanks around the semicolon.
structure ParamAt where
  before : Bytes
  after : Bytes
  param : Param
  before_blank : ∀ b ∈ before, isBlank b = true
  after_blank : ∀ b ∈ after, isBlank b = true

def ParamAt.bytes (p : ParamAt) : Bytes :=
  p.before ++ 59 :: (p.after ++ p.param.name ++ (p.param.value.map BitsValue.bytes).getD [])

-- What a server answers to one offer: permessage-deflate, no parameter twice.
structure Agreement where
  params : List ParamAt
  distinct : (params.map fun p => p.param.name).Nodup

def Agreement.bytes (a : Agreement) : Bytes := pmd ++ a.params.flatMap ParamAt.bytes

namespace Agreement

variable (a : Agreement)

def find (name : Bytes) : Option Param :=
  (a.params.find? fun p => p.param.name == name).map ParamAt.param

def carries (name : Bytes) : Bool := (a.find name).isSome

def value (name : Bytes) : Option BitsValue := (a.find name).bind Param.value

end Agreement

-- ---- what strstr finds ----

theorem blank_not_name {b : Byte} (h : isBlank b = true) : isNameChar b = false := by
  simp only [isBlank, Bool.or_eq_true, beq_iff_eq] at h
  rcases h with rfl | rfl <;> decide

theorem digit_not_name {b : Byte} (h : isDigit b = true) : isNameChar b = false := by
  have hall : ∀ n : Fin 256, isDigit (UInt8.ofNat n) = true → isNameChar (UInt8.ofNat n) = false := by
    decide +kernel
  have := hall ⟨b.toNat, b.toNat_lt⟩
  rw [UInt8.ofNat_toNat] at this
  exact this h

theorem bits_not_name (v : BitsValue) : ∀ b ∈ v.bytes, isNameChar b = false := by
  intro b hb
  have hquote : b ∈ v.quote → isNameChar b = false := by
    intro h
    unfold BitsValue.quote at h
    split at h
    · cases List.mem_singleton.mp h
      decide
    · cases h
  simp only [BitsValue.bytes, List.mem_append, List.mem_cons] at hb
  rcases hb with h | rfl | ((h | h) | h) | h
  · exact blank_not_name (v.gap_blank b h)
  · decide
  · exact blank_not_name (v.lead_blank b h)
  · exact hquote h
  · exact digit_not_name (v.digits_all b h)
  · exact hquote h

-- The names the client looks for.
structure Name (needle : Bytes) : Prop where
  ne : needle ≠ []
  chars : ∀ b ∈ needle, isNameChar b = true
  apart : ∀ word ∈ paramNames, word ≠ needle → ¬ needle <:+: word
  other : ¬ needle <:+: pmd

theorem serverNoCtx_name : Name serverNoCtx :=
  ⟨by decide, by decide +kernel, by decide +kernel, by decide +kernel⟩

theorem serverMaxWb_name : Name serverMaxWb :=
  ⟨by decide, by decide +kernel, by decide +kernel, by decide +kernel⟩

theorem clientMaxWb_name : Name clientMaxWb :=
  ⟨by decide, by decide +kernel, by decide +kernel, by decide +kernel⟩

-- What may stand after a parameter.
def Ends (rest : Bytes) : Prop := ∀ x ∈ rest.head?, x = 59 ∨ isBlank x = true

theorem Ends.not_name {rest : Bytes} (h : Ends rest) : ∀ x ∈ rest.head?, isNameChar x = false := by
  intro x hx
  rcases h x hx with rfl | hb
  · decide
  · exact blank_not_name hb

theorem params_end (ps : List ParamAt) : Ends (ps.flatMap ParamAt.bytes) := by
  intro x hx
  cases ps with
  | nil => cases hx
  | cons p ps =>
      rw [List.flatMap_cons, ParamAt.bytes] at hx
      cases hb : p.before with
      | nil =>
          rw [hb] at hx
          exact .inl (Option.some.inj hx).symm
      | cons b more =>
          rw [hb] at hx
          obtain rfl : b = x := Option.some.inj hx
          exact .inr (p.before_blank b (by rw [hb]; exact List.mem_cons_self))

section

variable {needle : Bytes} (hn : Name needle)

include hn

theorem Name.skip {b : Bytes} (h : ∀ x ∈ b, isNameChar x = false) (rest : Bytes) :
    strstrAfter needle (b ++ rest) = strstrAfter needle rest := by
  refine strstrAfter_skip (fun x hx hhead => ?_) hn.ne rest
  have hname := hn.chars x (List.mem_of_mem_head? hhead)
  rw [h x hx] at hname
  cases hname

-- The first parameter of the name is found, and nothing else.
theorem Name.strstr_params (ps : List ParamAt) :
    match ps.find? fun p => p.param.name == needle with
    | none => strstrAfter needle (ps.flatMap ParamAt.bytes) = none
    | some p => ∃ rest, Ends rest ∧ strstrAfter needle (ps.flatMap ParamAt.bytes) =
        some ((p.param.value.map BitsValue.bytes).getD [] ++ rest) := by
  induction ps with
  | nil => exact strstrAfter_nil hn.ne
  | cons p ps ih =>
      have hsep : ∀ rest, strstrAfter needle (p.before ++ 59 :: (p.after ++ rest)) =
          strstrAfter needle rest := by
        intro rest
        have hskip : ∀ x ∈ p.before ++ 59 :: p.after, isNameChar x = false := by
          intro x hx
          rcases List.mem_append.mp hx with h | h
          · exact blank_not_name (p.before_blank x h)
          · rcases List.mem_cons.mp h with rfl | h
            · decide
            · exact blank_not_name (p.after_blank x h)
        rw [← hn.skip hskip rest, List.append_assoc, List.cons_append]
      have hbytes : (p :: ps).flatMap ParamAt.bytes = p.before ++ 59 :: (p.after ++
          (p.param.name ++ ((p.param.value.map BitsValue.bytes).getD [] ++ ps.flatMap ParamAt.bytes))) := by
        rw [List.flatMap_cons, ParamAt.bytes]
        simp only [List.append_assoc, List.cons_append]
      rw [hbytes, hsep]
      by_cases hp : p.param.name = needle
      · rw [List.find?_cons_of_pos (by simpa using hp)]
        refine ⟨_, params_end ps, ?_⟩
        rw [hp, strstrAfter_self hn.ne]
      · rw [List.find?_cons_of_neg (by simpa using hp)]
        have hvalue : ∀ x ∈ (p.param.value.map BitsValue.bytes).getD [], isNameChar x = false := by
          cases p.param.value with
          | none => exact fun x hx => by cases hx
          | some v => exact bits_not_name v
        have hend : ∀ x ∈ ((p.param.value.map BitsValue.bytes).getD [] ++
            ps.flatMap ParamAt.bytes).head?, isNameChar x = false := by
          intro x hx
          cases hv : (p.param.value.map BitsValue.bytes).getD [] with
          | nil =>
              rw [hv] at hx
              exact (params_end ps).not_name x hx
          | cons b more =>
              rw [hv] at hx hvalue
              obtain rfl : b = x := Option.some.inj hx
              exact hvalue b List.mem_cons_self
        rw [strstrAfter_word hn.chars hend (hn.apart _ p.param.name_mem hp), hn.skip hvalue]
        exact ih

end

-- ---- the parameters as the client reads them ----

variable {needle : Bytes}

theorem Name.carries (hn : Name needle) (a : Agreement) :
    (strstrAfter needle a.bytes).isSome = a.carries needle := by
  have hparams := hn.strstr_params a.params
  rw [Agreement.bytes, strstrAfter_word hn.chars (params_end a.params).not_name hn.other]
  unfold Agreement.carries Agreement.find
  cases hf : a.params.find? fun p => p.param.name == needle with
  | none =>
      rw [hf] at hparams
      rw [hparams]
      rfl
  | some p =>
      rw [hf] at hparams
      obtain ⟨rest, -, hparams⟩ := hparams
      rw [hparams]
      rfl

-- The header as it is copied, with each value right behind the name and its sign.
structure Agreement.Plain (a : Agreement) : Prop where
  short : a.bytes.length < 256
  tight : ∀ p ∈ a.params, ∀ v ∈ p.param.value, v.gap = []

theorem Agreement.Plain.value_gap {a : Agreement} (h : a.Plain) {name : Bytes} {v : BitsValue}
    (hv : a.value name = some v) : v.gap = [] := by
  unfold Agreement.value Agreement.find at hv
  cases hf : a.params.find? fun p => p.param.name == name with
  | none =>
      rw [hf] at hv
      cases hv
  | some p =>
      rw [hf] at hv
      exact h.tight p (List.mem_of_find?_eq_some hf) v hv

-- A value that the client takes.
def BitsValue.taken (v : BitsValue) (requested : Nat) : Bool :=
  !v.quoted && 8 ≤ v.number && v.number ≤ 15 && (requested == 0 || v.number ≤ requested)

theorem takeWhile_digits {v : BitsValue} {rest : Bytes} (h : ∀ x ∈ rest.head?, isDigit x = false) :
    (v.digits ++ rest).takeWhile isDigit = v.digits := by
  rw [List.takeWhile_append_of_pos v.digits_all]
  cases rest with
  | nil => simp
  | cons x rest => rw [List.takeWhile_cons_of_neg (by rw [h x rfl]; decide), List.append_nil]

theorem strtol_value (v : BitsValue) (rest : Bytes) (hrest : ∀ x ∈ rest.head?, isDigit x = false) :
    strtol (v.lead ++ v.quote ++ v.digits ++ v.quote ++ rest) =
      if v.quoted then none else some (v.number : Int) := by
  have hspace : ∀ b, isBlank b = true → isSpace b = true := by
    intro b hb
    simp only [isBlank, Bool.or_eq_true, beq_iff_eq] at hb
    rcases hb with rfl | rfl <;> decide
  have hdrop : ∀ more, (v.lead ++ more).dropWhile isSpace = more.dropWhile isSpace := fun more =>
    List.dropWhile_append_of_pos fun b hb => hspace b (v.lead_blank b hb)
  unfold strtol
  simp only [List.append_assoc, hdrop]
  cases hq : v.quoted with
  | true =>
      have hquote : v.quote = [34] := by simp [BitsValue.quote, hq]
      rw [hquote]
      rfl
  | false =>
      have hquote : v.quote = [] := by simp [BitsValue.quote, hq]
      simp only [hquote, List.nil_append]
      obtain ⟨d, more, hd⟩ := List.exists_cons_of_ne_nil v.digits_ne
      have hdigit : isDigit d = true := v.digits_all d (by rw [hd]; exact List.mem_cons_self)
      have hplain : isSpace d = false ∧ d ≠ 45 ∧ d ≠ 43 := by
        have hall : ∀ n : Fin 256, isDigit (UInt8.ofNat n) = true →
            isSpace (UInt8.ofNat n) = false ∧ UInt8.ofNat n ≠ 45 ∧ UInt8.ofNat n ≠ 43 := by
          decide +kernel
        have := hall ⟨d.toNat, d.toNat_lt⟩
        rw [UInt8.ofNat_toNat] at this
        exact this hdigit
      have hdigits := takeWhile_digits (v := v) hrest
      rw [hd] at hdigits ⊢
      rw [List.cons_append] at hdigits ⊢
      rw [List.dropWhile_cons_of_neg (by rw [hplain.1]; decide)]
      split
      · rename_i tail heq
        exact absurd (List.cons.inj heq).1 hplain.2.1
      · rename_i tail heq
        exact absurd (List.cons.inj heq).1 hplain.2.2
      · dsimp only
        rw [hdigits, ← hd, if_neg v.digits_ne]
        rfl

theorem Name.windowBits_eq (hn : Name needle) {a : Agreement} (ha : a.Plain) (requested : Nat) :
    windowBits needle a.bytes requested =
      match a.value needle with
      | none => some 0
      | some v => if v.taken requested then some v.number else none := by
  have hparams := hn.strstr_params a.params
  have hvalue : ∀ v, a.value needle = some v → v.gap = [] := fun v hv => ha.value_gap hv
  unfold windowBits
  rw [Agreement.bytes, strstrAfter_word hn.chars (params_end a.params).not_name hn.other]
  unfold Agreement.value Agreement.find at hvalue ⊢
  cases hf : a.params.find? fun p => p.param.name == needle with
  | none =>
      rw [hf] at hparams
      rw [hparams]
      rfl
  | some p =>
      rw [hf] at hparams hvalue
      obtain ⟨rest, hends, hparams⟩ := hparams
      rw [hparams]
      cases hv : p.param.value with
      | none =>
          simp only [Option.map_none, Option.getD_none, List.nil_append, Option.map_some,
            Option.bind_some, hv]
          split
          · rename_i heq
            cases heq
          · rename_i value heq
            have hsign := hends 61 (by rw [Option.some.inj heq]; rfl)
            exact absurd hsign (by decide)
          · rfl
      | some v =>
          have hgap := hvalue v hv
          have hdigit : ∀ x ∈ rest.head?, isDigit x = false := by
            intro x hx
            rcases hends x hx with rfl | hb
            · decide
            · simp only [isBlank, Bool.or_eq_true, beq_iff_eq] at hb
              rcases hb with rfl | rfl <;> decide
          simp only [Option.map_some, Option.getD_some, Option.bind_some, hv, BitsValue.bytes, hgap,
            List.nil_append, List.cons_append]
          rw [strtol_value v rest hdigit]
          unfold BitsValue.taken
          cases v.quoted with
          | true => rfl
          | false =>
              generalize v.number = n
              simp only [Bool.false_eq_true, if_false, Bool.not_false, Bool.true_and]
              by_cases htaken : (decide (8 ≤ n) && decide (n ≤ 15) &&
                  (requested == 0 || decide (n ≤ requested))) = true
              · rw [if_pos htaken, if_neg]
                · rfl
                simp only [Bool.and_eq_true, Bool.or_eq_true, decide_eq_true_eq, beq_iff_eq] at htaken
                omega
              · rw [if_neg htaken, if_pos]
                simp only [Bool.and_eq_true, Bool.or_eq_true, decide_eq_true_eq, beq_iff_eq] at htaken
                omega

-- ---- the response ----

theorem cString_word {b : Bytes} (h : ∀ x ∈ b, x ≠ 0) : cString b = b := by
  unfold cString
  rw [List.takeWhile_eq_self_iff]
  exact fun x hx => by simpa using h x hx

theorem Agreement.bytes_legal (a : Agreement) : ∀ x ∈ a.bytes, x ≠ 0 ∧ x ≠ 44 := by
  have hname : ∀ x, isNameChar x = true → x ≠ 0 ∧ x ≠ 44 := by
    rintro x hx
    constructor <;> rintro rfl <;> exact absurd hx (by decide)
  have hblank : ∀ x, isBlank x = true → x ≠ 0 ∧ x ≠ 44 := by
    rintro x hx
    constructor <;> rintro rfl <;> exact absurd hx (by decide)
  have hdigit : ∀ x, isDigit x = true → x ≠ 0 ∧ x ≠ 44 := by
    rintro x hx
    constructor <;> rintro rfl <;> exact absurd hx (by decide)
  have hbits : ∀ (v : BitsValue), ∀ x ∈ v.bytes, x ≠ 0 ∧ x ≠ 44 := by
    intro v x hx
    have hquote : x ∈ v.quote → x ≠ 0 ∧ x ≠ 44 := by
      intro h
      unfold BitsValue.quote at h
      split at h
      · cases List.mem_singleton.mp h
        decide
      · cases h
    simp only [BitsValue.bytes, List.mem_append, List.mem_cons] at hx
    rcases hx with h | rfl | ((h | h) | h) | h
    · exact hblank x (v.gap_blank x h)
    · decide
    · exact hblank x (v.lead_blank x h)
    · exact hquote h
    · exact hdigit x (v.digits_all x h)
    · exact hquote h
  have hwords : ∀ word ∈ paramNames, ∀ x ∈ word, isNameChar x = true := by decide +kernel
  have hpmd : ∀ x ∈ pmd, isNameChar x = true := by decide +kernel
  intro x hx
  rcases List.mem_append.mp hx with h | h
  · exact hname x (hpmd x h)
  obtain ⟨p, -, h⟩ := List.mem_flatMap.mp h
  simp only [ParamAt.bytes, List.mem_append, List.mem_cons] at h
  rcases h with h | rfl | (h | h) | h
  · exact hblank x (p.before_blank x h)
  · decide
  · exact hblank x (p.after_blank x h)
  · exact hname x (hwords _ p.param.name_mem x h)
  · cases hv : p.param.value with
    | none =>
        rw [hv] at h
        cases h
    | some v =>
        rw [hv] at h
        exact hbits v x h

theorem Agreement.Plain.copied {a : Agreement} (h : a.Plain) : copyString 256 a.bytes = a.bytes := by
  have hshort := h.short
  rw [copyString, List.take_of_length_le (by omega)]
  exact cString_word fun x hx => (a.bytes_legal x hx).1

theorem rtrim_blanks (word : Bytes) {blanks : Bytes} (h : ∀ x ∈ blanks, isBlank x = true) :
    Http.rtrim (word ++ blanks) = Http.rtrim word := by
  unfold Http.rtrim List.rdropWhile
  rw [List.reverse_append, List.dropWhile_append_of_pos]
  exact fun x hx => h x (List.mem_reverse.mp hx)

-- The one extension is permessage-deflate.
theorem Agreement.accepted (a : Agreement) : extensionsOk a.bytes true = true := by
  let inside : Byte → Bool := fun b => b != 59 && b != 44
  have hblank : ∀ x, isBlank x = true → inside x = true := by
    intro x hx
    simp only [isBlank, Bool.or_eq_true, beq_iff_eq] at hx
    rcases hx with rfl | rfl <;> rfl
  have htail : ∃ blanks, (∀ x ∈ blanks, isBlank x = true) ∧
      (a.params.flatMap ParamAt.bytes).takeWhile inside = blanks := by
    cases a.params with
    | nil => exact ⟨[], by simp, rfl⟩
    | cons p ps =>
        refine ⟨p.before, p.before_blank, ?_⟩
        rw [List.flatMap_cons, ParamAt.bytes, List.append_assoc, List.cons_append,
          List.takeWhile_append_of_pos fun x hx => hblank x (p.before_blank x hx),
          List.takeWhile_cons_of_neg (by decide), List.append_nil]
  obtain ⟨blanks, hblanks, htail⟩ := htail
  have htake : a.bytes.takeWhile inside = pmd ++ blanks := by
    rw [Agreement.bytes, List.takeWhile_append_of_pos (by decide +kernel), htail]
  have hstart : a.bytes.dropWhile isBlank = a.bytes := by
    obtain ⟨b, more, hb⟩ : ∃ b more, pmd = b :: more ∧ isBlank b = false := ⟨_, _, rfl, by decide⟩
    rw [Agreement.bytes, hb.1, List.cons_append, List.dropWhile_cons_of_neg (by rw [hb.2]; decide)]
  have hcomma : Http.memchr 44 a.bytes = none := by
    rw [Http.memchr, List.findIdx?_eq_none_iff]
    exact fun x hx => by simpa using (a.bytes_legal x hx).2
  have hne : a.bytes ≠ [] := by
    intro hnil
    exact absurd (List.append_eq_nil_iff.mp hnil).1 (by decide)
  obtain ⟨fuel, hfuel⟩ : ∃ fuel, a.bytes.length = fuel + 1 :=
    Nat.exists_eq_add_one.mpr (List.length_pos_iff.mpr hne)
  have htok : Http.rtrim (a.bytes.takeWhile inside) = pmd := by
    rw [htake, rtrim_blanks pmd hblanks]
    decide +kernel
  rw [extensionsOk, if_neg hne, if_neg (by decide), hfuel, extensionsOkLoop, hstart]
  dsimp only
  rw [if_neg hne, if_neg (fun h => h htok), hcomma]

-- A number that a server may answer to an offer.
def BitsValue.legal (v : BitsValue) (offered : Nat) : Prop :=
  8 ≤ v.number ∧ v.number ≤ 15 ∧ (offered ≠ 0 → v.number ≤ offered)

theorem BitsValue.taken_iff (v : BitsValue) (requested : Nat) : v.taken requested = true ↔
    v.quoted = false ∧ 8 ≤ v.number ∧ v.number ≤ 15 ∧ (requested = 0 ∨ v.number ≤ requested) := by
  simp only [BitsValue.taken, Bool.and_eq_true, Bool.or_eq_true, Bool.not_eq_true', decide_eq_true_eq,
    beq_iff_eq, and_assoc]

theorem BitsValue.taken_legal {v : BitsValue} {requested : Nat} (h : v.taken requested = true) :
    v.legal (legalBits requested) := by
  obtain ⟨-, hlow, hhigh, hreq⟩ := (v.taken_iff requested).mp h
  refine ⟨hlow, hhigh, fun hne => ?_⟩
  unfold legalBits at hne ⊢
  split_ifs at hne ⊢
  · omega
  · exact absurd rfl hne

namespace Conn

variable {σ δ : Type} (env : Env σ δ)

-- Every number is one that the client takes.
def Taken (a : Agreement) : Prop :=
  (∀ v, a.value clientMaxWb = some v → v.taken env.requestClientMaxWindowBits = true) ∧
  ∀ v, a.value serverMaxWb = some v → v.taken env.requestServerMaxWindowBits = true

-- What ws_deflate_create is given.
def agreedParams (a : Agreement) : DeflateParams where
  serverNoContextTakeover := a.carries serverNoCtx
  clientNoContextTakeover := env.requestClientNoContextTakeover
  serverMaxWindowBits := ((a.value serverMaxWb).map BitsValue.number).getD 0
  clientMaxWindowBits :=
    ((a.value clientMaxWb).map BitsValue.number).getD (legalBits env.requestClientMaxWindowBits)
  compressionLevel := env.deflateLevel

section

variable {env : Env σ δ} {a : Agreement}

theorem negotiate_taken (ha : a.Plain) (hoffer : env.enableDeflate = true) (ht : Taken env a)
    (c : Conn σ δ) :
    negotiate env a.bytes c = (true, (createDeflate env (agreedParams env a) c).2) := by
  have hpmd : (strstrAfter pmd a.bytes).isSome = true := by
    rw [Agreement.bytes, strstrAfter_self (by decide)]
    rfl
  have hclient : windowBits clientMaxWb a.bytes env.requestClientMaxWindowBits =
      some (((a.value clientMaxWb).map BitsValue.number).getD 0) := by
    rw [clientMaxWb_name.windowBits_eq ha]
    cases hv : a.value clientMaxWb with
    | none => rfl
    | some v => exact if_pos (ht.1 v hv)
  have hserver : windowBits serverMaxWb a.bytes env.requestServerMaxWindowBits =
      some (((a.value serverMaxWb).map BitsValue.number).getD 0) := by
    rw [serverMaxWb_name.windowBits_eq ha]
    cases hv : a.value serverMaxWb with
    | none => rfl
    | some v => exact if_pos (ht.2 v hv)
  have hbits : (if ((a.value clientMaxWb).map BitsValue.number).getD 0 = 0 then
      legalBits env.requestClientMaxWindowBits
      else ((a.value clientMaxWb).map BitsValue.number).getD 0) =
        ((a.value clientMaxWb).map BitsValue.number).getD (legalBits env.requestClientMaxWindowBits) := by
    cases hv : a.value clientMaxWb with
    | none => rfl
    | some v =>
        have := ((v.taken_iff _).mp (ht.1 v hv)).2.1
        exact if_neg (by simp only [Option.map_some, Option.getD_some]; omega)
  unfold negotiate
  rw [hoffer, hpmd, hclient, hserver, if_pos (by decide)]
  dsimp only
  rw [hbits, serverNoCtx_name.carries a]
  rfl

theorem negotiate_refused (ha : a.Plain) (hoffer : env.enableDeflate = true) (ht : ¬ Taken env a)
    (c : Conn σ δ) : negotiate env a.bytes c = (false, fatal env (notify env) Err.wsProtocol c) := by
  have hpmd : (strstrAfter pmd a.bytes).isSome = true := by
    rw [Agreement.bytes, strstrAfter_self (by decide)]
    rfl
  unfold negotiate
  rw [hoffer, hpmd, if_pos (by decide)]
  cases hclient : windowBits clientMaxWb a.bytes env.requestClientMaxWindowBits with
  | none => rfl
  | some cbits =>
      cases hserver : windowBits serverMaxWb a.bytes env.requestServerMaxWindowBits with
      | none => rfl
      | some sbits =>
          rw [clientMaxWb_name.windowBits_eq ha] at hclient
          rw [serverMaxWb_name.windowBits_eq ha] at hserver
          refine absurd ⟨fun v hv => ?_, fun v hv => ?_⟩ ht
          · rw [hv] at hclient
            by_contra hno
            cases (if_neg hno).symm.trans hclient
          · rw [hv] at hserver
            by_contra hno
            cases (if_neg hno).symm.trans hserver

end

-- The context does what the response and the offer say.
structure Honours (a : Agreement) (df : Deflate σ δ) : Prop where
  compressor : a.carries clientNoCtx = true ∨ env.requestClientNoContextTakeover = true →
    df.clientNoContextTakeover = true
  window : ∀ v, a.value clientMaxWb = some v → df.clientWindowBits ≤ v.number
  offered : legalBits env.requestClientMaxWindowBits ≠ 0 →
    df.clientWindowBits ≤ legalBits env.requestClientMaxWindowBits
  decompressor : df.serverNoContextTakeover = true → a.carries serverNoCtx = true
  inflateWindow : ((a.value serverMaxWb).map BitsValue.number).getD 15 ≤ df.serverWindowBits

def LegalValues (a : Agreement) : Prop :=
  (∀ v, a.value clientMaxWb = some v → v.legal (legalBits env.requestClientMaxWindowBits)) ∧
  ∀ v, a.value serverMaxWb = some v → v.legal (legalBits env.requestServerMaxWindowBits)

-- The connection holds a 101 response that answers its key and confirms the extension.
structure Confirms (c : Conn σ δ) (m : Msg) (a : Agreement) : Prop where
  parsed : Http.parse c.recv = .complete m
  response : m.start.isResponse = true
  switching : m.start.statusCode = 101
  length : 14 ≤ c.recv.length
  accepted : verifyAccept c.secWsKey (responseOf c.recv m).accept = true
  accept_ne : (responseOf c.recv m).accept ≠ []
  confirmed : findHeader c.recv m (ascii "sec-websocket-extensions") = some a.bytes

-- What is negotiated, and what the handshake does with it.
def MeetsTerms (c : Conn σ δ) (m : Msg) (a : Agreement) : Prop :=
  let r := negotiate env (responseOf c.recv m).extensions (c.emit (.response c.recv))
  handshakeDataClient env c = (if r.1 then openUp env m.body.off r.2 else r.2) ∧
  (r.1 = true → LegalValues env a ∧ ∀ df, r.2.deflate = some df → Honours env a df) ∧
  (r.1 = false → r.2.state = .closed)

section

variable {env : Env σ δ} {c : Conn σ δ} {m : Msg} {a : Agreement}

theorem Confirms.extensions (h : Confirms c m a) (ha : a.Plain) :
    (responseOf c.recv m).extensions = a.bytes := by
  unfold responseOf
  rw [h.confirmed]
  exact ha.copied

variable (env) in
theorem Confirms.handshake (h : Confirms c m a) (ha : a.Plain) (hoffer : env.enableDeflate = true) :
    handshakeDataClient env c =
      let r := negotiate env (responseOf c.recv m).extensions (c.emit (.response c.recv))
      if r.1 then openUp env m.body.off r.2 else r.2 := by
  have hpos : 4 ≤ m.body.off := by
    obtain ⟨hdrEnd, lineEnd, f, -, -, -, -, -, hm⟩ := Http.parse_complete h.parsed
    have hoff : m.body.off = hdrEnd + 4 := congrArg (·.body.off) hm
    omega
  have hparse : parseResponse c.recv = ((m.body.off : Int), responseOf c.recv m) := by
    rw [parseResponse_complete h.parsed h.response h.length, if_neg fun hu => h.accept_ne hu.2]
  have hredirects : (responseOf c.recv m).redirects = false := by
    have hstatus : (responseOf c.recv m).statusCode = 101 := h.switching
    simp [HandshakeResponse.redirects, hstatus]
  have hestablish : clientEstablish env (m.body.off : Int).toNat (responseOf c.recv m)
      (c.emit (.response c.recv)) =
        let r := negotiate env (responseOf c.recv m).extensions (c.emit (.response c.recv))
        if r.1 then openUp env m.body.off r.2 else r.2 := by
    unfold clientEstablish
    rw [h.extensions ha, hoffer, a.accepted, if_neg (by decide)]
    dsimp only
    cases (negotiate env a.bytes (c.emit (.response c.recv))).1 <;> rfl
  unfold handshakeDataClient
  rw [hparse]
  dsimp only
  rw [if_neg (by omega), if_neg (by omega), hredirects, if_neg (by decide)]
  split
  · rw [if_neg]
    · exact hestablish
    · rintro (hs | hv)
      · exact hs h.switching
      · exact absurd hv (by simp [emit, h.accepted])
  · rw [if_neg]
    · exact hestablish
    · simp [emit, h.accepted]

theorem deflateCreate_params {z : Zlib σ δ} {ok : Bool} {p : DeflateParams} {df : Deflate σ δ}
    (h : deflateCreate z ok p = some df) :
    df.clientNoContextTakeover = p.clientNoContextTakeover ∧
      df.serverNoContextTakeover = p.serverNoContextTakeover ∧
      df.clientWindowBits = (if p.clientMaxWindowBits ≠ 0 then p.clientMaxWindowBits else 15) ∧
      df.serverWindowBits = (if p.serverMaxWindowBits ≠ 0 then p.serverMaxWindowBits else 15) := by
  unfold deflateCreate at h
  split at h
  · cases h
  dsimp only at h
  split at h
  · cases h
  split at h
  · cases h
  cases h
  exact ⟨rfl, rfl, rfl, rfl⟩

-- What is made of the parameters of a response whose numbers are taken.
theorem honours_agreed (ht : Taken env a) {ok : Bool} {df : Deflate σ δ}
    (hdf : deflateCreate env.zlib ok (agreedParams env a) = some df) :
    Honours env a df ↔ (a.carries clientNoCtx = true → env.requestClientNoContextTakeover = true) := by
  obtain ⟨hclient, hserver, hwindow, hinflate⟩ := deflateCreate_params hdf
  constructor
  · intro h hcarries
    exact hclient.symm.trans (h.compressor (.inl hcarries))
  · intro h
    refine ⟨?_, fun v hv => ?_, fun hne => ?_, fun hreset => ?_, ?_⟩
    · rw [hclient]
      exact fun hor => hor.elim h id
    · have htaken := (v.taken_iff _).mp (ht.1 v hv)
      simp only [agreedParams, hv, Option.map_some, Option.getD_some] at hwindow
      rw [hwindow, if_pos (by omega)]
    · cases hv : a.value clientMaxWb with
      | none =>
          simp only [agreedParams, hv, Option.map_none, Option.getD_none] at hwindow
          rw [hwindow, if_pos hne]
      | some v =>
          have hlegal := BitsValue.taken_legal (ht.1 v hv)
          simp only [agreedParams, hv, Option.map_some, Option.getD_some] at hwindow
          have hlow := hlegal.1
          rw [hwindow, if_pos (by omega)]
          exact hlegal.2.2 hne
    · exact hserver.symm.trans hreset
    · cases hv : a.value serverMaxWb with
      | none =>
          simp only [agreedParams, hv, Option.map_none, Option.getD_none] at hinflate
          rw [hinflate]
          rfl
      | some v =>
          have hlow := ((v.taken_iff _).mp (ht.2 v hv)).2.1
          simp only [agreedParams, hv, Option.map_some, Option.getD_some] at hinflate
          rw [hinflate, if_pos (by omega)]
          exact le_rfl

theorem terms_honoured_iff (c : Conn σ δ) (m : Msg) (a : Agreement) (hconf : Confirms c m a)
    (hoffer : env.enableDeflate = true) (ha : a.Plain) (hnone : c.deflate = none)
    (hg : c.gone = false) :
    MeetsTerms env c m a ↔ (a.carries clientNoCtx = true → env.requestClientNoContextTakeover = true ∨
      ¬ Taken env a ∨
      deflateCreate env.zlib (env.alloc (c.log ++ [.response c.recv])) (agreedParams env a) = none) := by
  have hhandshake := hconf.handshake env ha hoffer
  unfold MeetsTerms
  rw [hconf.extensions ha] at hhandshake ⊢
  by_cases ht : Taken env a
  · rw [negotiate_taken ha hoffer ht] at hhandshake ⊢
    have hlegal : LegalValues env a :=
      ⟨fun v hv => BitsValue.taken_legal (ht.1 v hv), fun v hv => BitsValue.taken_legal (ht.2 v hv)⟩
    have hcreate : (createDeflate env (agreedParams env a) (c.emit (.response c.recv))).2.deflate =
        deflateCreate env.zlib (env.alloc (c.log ++ [.response c.recv])) (agreedParams env a) := by
      unfold createDeflate
      dsimp only [alloc]
      split
      · rename_i h
        exact hnone.trans h.symm
      · rename_i df h
        exact h.symm
    dsimp only
    rw [hcreate]
    constructor
    · rintro ⟨-, hopens, -⟩ hcarries
      cases hdf : deflateCreate env.zlib (env.alloc (c.log ++ [.response c.recv]))
          (agreedParams env a) with
      | none => exact .inr (.inr rfl)
      | some df => exact .inl ((honours_agreed ht hdf).mp ((hopens rfl).2 df hdf) hcarries)
    · intro h
      refine ⟨hhandshake, fun _ => ⟨hlegal, fun df hdf => (honours_agreed ht hdf).mpr fun hcarries => ?_⟩,
        fun hfalse => by cases hfalse⟩
      rcases h hcarries with h | h | h
      · exact h
      · exact absurd ht h
      · cases h.symm.trans hdf
  · rw [negotiate_refused ha hoffer ht] at hhandshake ⊢
    refine ⟨fun _ _ => .inr (.inl ht), fun _ => ⟨hhandshake, (by rintro ⟨⟩), fun _ => ?_⟩⟩
    have hd : c.destroyed = false := by
      simp only [gone, Bool.or_eq_false_iff] at hg
      exact hg.1
    exact fatal_over _ fun h => by cases hd.symm.trans h

end

-- ---- two responses ----

def zlibReady : Zlib Unit Unit :=
  { zlibNone with inflateInit := fun _ => some (), deflateInit := fun _ _ => some () }

def deflateClient : Env Unit Unit := { plainClient with enableDeflate := true, zlib := zlibReady }

def tenBits : BitsValue :=
  ⟨[], [], false, [49, 48], List.forall_mem_nil _, List.forall_mem_nil _, by decide,
    List.all_iff_forall_prop.mp (by decide)⟩

-- permessage-deflate; client_max_window_bits=10
def windowTerms : Agreement :=
  ⟨[⟨[], [32], .clientBits (some tenBits), List.forall_mem_nil _, List.forall_mem_singleton.mpr rfl⟩],
    by decide⟩

-- permessage-deflate; client_no_context_takeover
def resetTerms : Agreement :=
  ⟨[⟨[], [32], .clientNct, List.forall_mem_nil _, List.forall_mem_singleton.mpr rfl⟩], by decide⟩

def awaiting (a : Agreement) : Conn Unit Unit :=
  { start [] 0 [] 1 with
    state := .handshake
    stream := .opened
    secWsKey := ascii "dGhlIHNhbXBsZSBub25jZQ=="
    recv := ascii "HTTP/1.1 101 Switching Protocols\r\n" ++
      ascii "Sec-WebSocket-Accept: s3pPLMBiTxaQ9kYGzzhZRbK+xOo=\r\n" ++
      ascii "Sec-WebSocket-Extensions: " ++ a.bytes ++ ascii "\r\n\r\n" }

def confirmation (len : Nat) : Msg :=
  { start :=
      { isResponse := true, method := .unknown, methodRef := none, target := none, statusCode := 101
        keepAlive := true }
    upgrade := false, keepAlive := true, contentLength := 0, body := ⟨36 + len, 0⟩
    headers := ⟨34, len⟩ }

theorem windowTerms_confirmed : Confirms (awaiting windowTerms) (confirmation 125) windowTerms :=
  ⟨by decide +kernel, rfl, rfl, by decide +kernel, by decide +kernel, by decide +kernel,
    by decide +kernel⟩

theorem terms_honoured_window :
    MeetsTerms deflateClient (awaiting windowTerms) (confirmation 125) windowTerms := by
  have hplain : windowTerms.Plain := by
    refine ⟨by decide +kernel, fun p hp v hv => ?_⟩
    cases List.mem_singleton.mp hp
    cases hv
    rfl
  have hiff := @terms_honoured_iff _ _ deflateClient _ _ _ windowTerms_confirmed rfl hplain rfl rfl
  refine hiff.mpr fun hcarries => ?_
  have hnot : windowTerms.carries clientNoCtx = false := by decide +kernel
  cases hnot.symm.trans hcarries

-- The server does not keep its end of the context, the client keeps its own.
theorem reset_not_honoured :
    Confirms (awaiting resetTerms) (confirmation 126) resetTerms ∧
      ¬ MeetsTerms deflateClient (awaiting resetTerms) (confirmation 126) resetTerms := by
  have hconf : Confirms (awaiting resetTerms) (confirmation 126) resetTerms :=
    ⟨by decide +kernel, rfl, rfl, by decide +kernel, by decide +kernel, by decide +kernel,
      by decide +kernel⟩
  refine ⟨hconf, fun h => ?_⟩
  obtain ⟨hopens, df, hdf, hkeeps⟩ : (negotiate deflateClient
      (responseOf (awaiting resetTerms).recv (confirmation 126)).extensions
      ((awaiting resetTerms).emit (.response (awaiting resetTerms).recv))).1 = true ∧
      ∃ df, (negotiate deflateClient
        (responseOf (awaiting resetTerms).recv (confirmation 126)).extensions
        ((awaiting resetTerms).emit (.response (awaiting resetTerms).recv))).2.deflate = some df ∧
          df.clientNoContextTakeover = false := by
    refine ⟨by decide +kernel, ⟨(), (), false, false, 15, 15⟩, by decide +kernel, rfl⟩
  have hreset := ((h.2.1 hopens).2 df hdf).compressor (.inl (by decide +kernel))
  cases hkeeps.symm.trans hreset

end Conn

end Sevent.Ws
