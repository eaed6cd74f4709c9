import Mathlib.Data.Bool.AllAny
import Sevent.Http.Decimal
import Sevent.Http.Head
import Sevent.Ws.Response

-- The requests and responses of the handshake as their builders write them and as their parsers
-- read them.
namespace Sevent.Ws

open Sevent.Http

-- ---- the tokens of an extension header ----

-- A token with its value: no separator inside, no blank at the ends.
structure Elem (x : Bytes) : Prop where
  first : ∃ b rest, x = b :: rest ∧ isBlank b = false
  inside : ∀ b ∈ x, b ≠ 59 ∧ b ≠ 44
  last : ∀ b ∈ x.getLast?, isBlank b = false

def separated (es : List Bytes) : Bytes := es.flatMap fun x => 59 :: 32 :: x

theorem Elem.rtrim {x : Bytes} (h : Elem x) : Http.rtrim x = x := by
  unfold Http.rtrim
  rw [List.rdropWhile_eq_self_iff]
  intro hne
  rw [h.last _ (List.getLast?_eq_getLast_of_ne_nil hne)]
  decide

theorem extTokenHasLoop_elem (token : Bytes) {e lead tail : Bytes} (fuel : Nat)
    (hlead : ∀ b ∈ lead, isBlank b = true) (he : Elem e) (htail : ∀ b ∈ tail.head?, b = 59) :
    extTokenHasLoop token (fuel + 1) (lead ++ (e ++ tail)) =
      (tokenEq e token || extTokenHasLoop token fuel (tail.drop 1)) := by
  obtain ⟨b, more, rfl, hb⟩ := he.first
  have hstart : (lead ++ (b :: more ++ tail)).dropWhile (fun x => isBlank x || x == 44) =
      b :: more ++ tail := by
    rw [List.dropWhile_append_of_pos fun x hx => by rw [hlead x hx]; rfl, List.cons_append,
      List.dropWhile_cons_of_neg]
    have hcomma := (he.inside b List.mem_cons_self).2
    simp [hb, hcomma]
  have helem : (b :: more ++ tail).takeWhile (fun x => x != 59 && x != 44) = b :: more := by
    rw [List.takeWhile_append_of_pos fun x hx => by simpa using he.inside x hx]
    cases tail with
    | nil => simp
    | cons x tail => rw [htail x rfl, List.takeWhile_cons_of_neg (by decide), List.append_nil]
  rw [extTokenHasLoop, if_neg (by simp)]
  dsimp only
  rw [hstart, helem, he.rtrim, List.drop_left]
  have hrest : (if tail.head? = some 59 then tail.drop 1 else tail) = tail.drop 1 := by
    cases tail with
    | nil => rfl
    | cons x tail =>
        obtain rfl := htail x rfl
        rfl
  rw [hrest]
  cases tokenEq (b :: more) token <;> rfl

theorem extTokenHasLoop_elems (token lead : Bytes) {es : List Bytes} {e : Bytes} (fuel : Nat)
    (hfuel : es.length < fuel) (hlead : ∀ b ∈ lead, isBlank b = true)
    (he : ∀ x ∈ e :: es, Elem x) :
    extTokenHasLoop token fuel (lead ++ (e ++ separated es)) = (e :: es).any (tokenEq · token) := by
  induction es generalizing e lead fuel with
  | nil =>
      obtain ⟨fuel, rfl⟩ : ∃ k, fuel = k + 1 := Nat.exists_eq_add_one.mpr hfuel
      have hend : extTokenHasLoop token fuel [] = false := by
        cases fuel <;> rfl
      rw [extTokenHasLoop_elem token fuel hlead (he e List.mem_cons_self) (by simp [separated])]
      simp [separated, hend]
  | cons x es ih =>
      obtain ⟨fuel, rfl⟩ : ∃ k, fuel = k + 1 := Nat.exists_eq_add_one.mpr (by omega)
      have hrest : (separated (x :: es)).drop 1 = [32] ++ (x ++ separated es) := rfl
      have hhead : ∀ b ∈ (separated (x :: es)).head?, b = 59 := by
        intro b hb
        exact (Option.some.inj hb).symm
      rw [extTokenHasLoop_elem token fuel hlead (he e List.mem_cons_self) hhead, hrest]
      rw [ih [32] fuel (by simpa using hfuel) (List.forall_mem_singleton.mpr rfl) fun y hy => he y (List.mem_cons_of_mem e hy)]
      rfl

theorem extTokenHas_elems {e : Bytes} {es : List Bytes} (he : ∀ x ∈ e :: es, Elem x) (token : Bytes) :
    extTokenHas (e ++ separated es) token = (e :: es).any (tokenEq · token) := by
  have hlen : es.length ≤ (separated es).length := by
    clear he
    induction es with
    | nil => exact Nat.zero_le _
    | cons x es ih =>
        rw [separated, List.flatMap_cons, List.length_append, List.length_cons]
        rw [separated] at ih
        simp only [List.length_cons]
        omega
  refine extTokenHasLoop_elems token [] _ ?_ (by simp) he
  rw [List.length_append]
  omega

-- ---- the offer ----

def bitsElem (name : Bytes) (bits : Nat) : Bytes :=
  if bits ≠ 0 then name ++ ascii "=" ++ ascii (toString bits) else name

def offerElems (p : DeflateParams) : List Bytes :=
  bitsElem clientMaxWb p.clientMaxWindowBits ::
    ((if p.serverMaxWindowBits ≠ 0 then [bitsElem serverMaxWb p.serverMaxWindowBits] else []) ++
      (if p.clientNoContextTakeover then [clientNoCtx] else []) ++
      (if p.serverNoContextTakeover then [serverNoCtx] else []))

theorem extensionOffer_eq (p : DeflateParams) :
    extensionOffer p = pmd ++ separated (offerElems p) := by
  have hsep : ascii "; " = [59, 32] := by decide
  unfold extensionOffer offerElems bitsElem separated
  rw [hsep]
  split_ifs <;> simp

-- RFC 7692: no value, or 8 to 15.
def WindowBits (n : Nat) : Prop := n = 0 ∨ (8 ≤ n ∧ n ≤ 15)

def plainElem (x : Bytes) : Bool :=
  x ≠ [] && x.all (fun b => b != 59 && b != 44 && !isBlank b && b != 13 && b != 10)

theorem plainElem_iff {x : Bytes} : plainElem x = true ↔
    x ≠ [] ∧ ∀ b ∈ x, b ≠ 59 ∧ b ≠ 44 ∧ isBlank b = false ∧ b ≠ 13 ∧ b ≠ 10 := by
  simp only [plainElem, Bool.and_eq_true, decide_eq_true_eq, List.all_eq_true, bne_iff_ne,
    Bool.not_eq_true', and_assoc]

theorem elem_of_plain {x : Bytes} (h : plainElem x = true) : Elem x := by
  obtain ⟨hne, hall⟩ := plainElem_iff.mp h
  constructor
  · cases x with
    | nil => exact absurd rfl hne
    | cons b rest => exact ⟨b, rest, rfl, (hall b List.mem_cons_self).2.2.1⟩
  · intro b hb
    exact ⟨(hall b hb).1, (hall b hb).2.1⟩
  · intro b hb
    exact (hall b (List.mem_of_getLast? hb)).2.2.1

-- What the offer needs of a parameter with a value.
theorem bitsElem_facts {n : Nat} (h : WindowBits n) :
    (plainElem (bitsElem clientMaxWb n) = true ∧ tokenEq (bitsElem clientMaxWb n) clientNoCtx = false ∧
      (bitsElem clientMaxWb n).length ≤ 25) ∧
    (plainElem (bitsElem serverMaxWb n) = true ∧ tokenEq (bitsElem serverMaxWb n) clientNoCtx = false ∧
      (bitsElem serverMaxWb n).length ≤ 25) := by
  have hall : ∀ n < 16,
      (plainElem (bitsElem clientMaxWb n) = true ∧ tokenEq (bitsElem clientMaxWb n) clientNoCtx = false ∧
        (bitsElem clientMaxWb n).length ≤ 25) ∧
      (plainElem (bitsElem serverMaxWb n) = true ∧ tokenEq (bitsElem serverMaxWb n) clientNoCtx = false ∧
        (bitsElem serverMaxWb n).length ≤ 25) := by
    decide
  exact hall n (by unfold WindowBits at h; omega)

theorem offerElems_plain {p : DeflateParams} (hc : WindowBits p.clientMaxWindowBits)
    (hs : WindowBits p.serverMaxWindowBits) : ∀ x ∈ offerElems p, plainElem x = true := by
  intro x hx
  have hnames : plainElem clientNoCtx = true ∧ plainElem serverNoCtx = true := by decide
  simp only [offerElems, List.mem_cons, List.mem_append] at hx
  rcases hx with rfl | (hx | hx) | hx
  · exact (bitsElem_facts hc).1.1
  · split at hx
    · rw [List.mem_singleton.mp hx]
      exact (bitsElem_facts hs).2.1
    · exact absurd hx List.not_mem_nil
  · split at hx
    · rw [List.mem_singleton.mp hx]
      exact hnames.1
    · exact absurd hx List.not_mem_nil
  · split at hx
    · rw [List.mem_singleton.mp hx]
      exact hnames.2
    · exact absurd hx List.not_mem_nil

theorem offer_scanned {p : DeflateParams} (hc : WindowBits p.clientMaxWindowBits)
    (hs : WindowBits p.serverMaxWindowBits) :
    extTokenHas (extensionOffer p) pmd = true ∧
      extTokenHas (extensionOffer p) clientNoCtx = p.clientNoContextTakeover := by
  have helems : ∀ x ∈ pmd :: offerElems p, Elem x := by
    intro x hx
    rcases List.mem_cons.mp hx with rfl | hx
    · exact elem_of_plain (by decide)
    · exact elem_of_plain (offerElems_plain hc hs x hx)
  have hself : tokenEq pmd pmd = true := by decide
  have hother : tokenEq pmd clientNoCtx = false ∧ tokenEq clientNoCtx clientNoCtx = true ∧
      tokenEq serverNoCtx clientNoCtx = false := by decide
  rw [extensionOffer_eq, extTokenHas_elems helems, extTokenHas_elems helems]
  constructor
  · rw [List.any_cons, hself, Bool.true_or]
  · rw [List.any_cons, hother.1, offerElems, List.any_cons, (bitsElem_facts hc).1.2.1, List.any_append,
      List.any_append]
    have hbits : (if p.serverMaxWindowBits ≠ 0 then [bitsElem serverMaxWb p.serverMaxWindowBits] else []).any
        (tokenEq · clientNoCtx) = false := by
      split
      · simpa using (bitsElem_facts hs).2.2.1
      · rfl
    have hserver : (if p.serverNoContextTakeover then [serverNoCtx] else []).any
        (tokenEq · clientNoCtx) = false := by
      split
      · simpa using hother.2.2
      · rfl
    rw [hbits, hserver]
    cases p.clientNoContextTakeover
    · rfl
    · simpa using hother.2.1

theorem extensionOffer_length {p : DeflateParams} (hc : WindowBits p.clientMaxWindowBits)
    (hs : WindowBits p.serverMaxWindowBits) : (extensionOffer p).length ≤ 128 := by
  have hnames : pmd.length = 18 ∧ clientNoCtx.length = 26 ∧ serverNoCtx.length = 26 := by decide
  have hcb := (bitsElem_facts hc).1.2.2
  have hsb := (bitsElem_facts hs).2.2.2
  rw [extensionOffer_eq, List.length_append, separated, List.length_flatMap, offerElems]
  split_ifs <;> simp [hnames] <;> omega

-- ---- values that are read back as written ----

-- What a field's value may hold: no line end inside, no blank at the ends.
structure Value (v : Bytes) : Prop where
  unbroken : Unbroken v
  trimmed : trim v = v

theorem separated_last {es : List Bytes} (h : ∀ x ∈ es, Elem x) :
    ∀ b ∈ (separated es).getLast?, isBlank b = false := by
  induction es with
  | nil => simp [separated]
  | cons x es ih =>
      intro b hb
      have hsplit : separated (x :: es) = [59, 32] ++ (x ++ separated es) := rfl
      obtain ⟨c, rest, hx, -⟩ := (h x List.mem_cons_self).first
      have hne : x.getLast? ≠ none := by simp [hx]
      rw [hsplit, List.getLast?_append, List.getLast?_append] at hb
      cases hrest : (separated es).getLast? with
      | some d =>
          rw [hrest, Option.some_or, Option.some_or] at hb
          obtain rfl := Option.some.inj hb
          exact ih (fun y hy => h y (List.mem_cons_of_mem x hy)) d hrest
      | none =>
          obtain ⟨d, hd⟩ := Option.ne_none_iff_exists'.mp hne
          rw [hrest, Option.none_or, hd, Option.some_or] at hb
          obtain rfl := Option.some.inj hb
          exact (h x List.mem_cons_self).last d hd

theorem Value.intro {v : Bytes} (h : Unbroken v) (hfirst : ∀ b ∈ v.head?, isBlank b = false)
    (hlast : ∀ b ∈ v.getLast?, isBlank b = false) : Value v := ⟨h, trim_eq hfirst hlast⟩

theorem Value.of_all {v : Bytes} (h : ∀ b ∈ v, b ≠ 13 ∧ b ≠ 10 ∧ isBlank b = false) : Value v :=
  .intro (fun b hb => ⟨(h b hb).1, (h b hb).2.1⟩) (fun b hb => (h b (List.mem_of_head? hb)).2.2)
    fun b hb => (h b (List.mem_of_getLast? hb)).2.2

theorem offer_value {p : DeflateParams} (hc : WindowBits p.clientMaxWindowBits)
    (hs : WindowBits p.serverMaxWindowBits) : Value (extensionOffer p) := by
  have hplain := offerElems_plain hc hs
  have hpmd : plainElem pmd = true := by decide
  have hbytes : ∀ x, plainElem x = true → Unbroken x := fun x hx b hb =>
    ((plainElem_iff.mp hx).2 b hb).2.2.2
  rw [extensionOffer_eq]
  refine .intro ?_ ?_ ?_
  · intro b hb
    rcases List.mem_append.mp hb with hb | hb
    · exact hbytes pmd hpmd b hb
    · obtain ⟨x, hx, hb⟩ := List.mem_flatMap.mp hb
      rcases List.mem_cons.mp hb with rfl | hb
      · decide
      · rcases List.mem_cons.mp hb with rfl | hb
        · decide
        · exact hbytes x (hplain x hx) b hb
  · obtain ⟨c, rest, hx, hblank⟩ := (elem_of_plain hpmd).first
    rw [hx]
    intro b hb
    obtain rfl := Option.some.inj hb
    exact hblank
  · intro b hb
    have hne : separated (offerElems p) ≠ [] := by
      unfold offerElems separated
      exact List.cons_ne_nil _ _
    rw [List.getLast?_append_of_ne_nil _ hne] at hb
    exact separated_last (fun x hx => elem_of_plain (hplain x hx)) b hb

-- ---- Base64 and decimal digits ----

def IsBase64 (b : Byte) : Prop := b ∈ b64Tab ∨ b = 61

theorem IsBase64.plain {b : Byte} (h : IsBase64 b) :
    b ≠ 13 ∧ b ≠ 10 ∧ b ≠ 0 ∧ isBlank b = false := by
  have htab : ∀ b ∈ b64Tab, b ≠ 13 ∧ b ≠ 10 ∧ b ≠ 0 ∧ isBlank b = false :=
    List.all_iff_forall_prop.mp (by decide)
  rcases h with h | rfl
  · exact htab b h
  · decide

theorem b64Tab_getD {i : Nat} (h : i < 64) : b64Tab.getD i 0 ∈ b64Tab := by
  have hlen : b64Tab.length = 64 := by decide
  rw [List.getD_eq_getElem?_getD, List.getElem?_eq_getElem (by omega), Option.getD_some]
  exact List.getElem_mem _

theorem b64Quad_mem (a b c : Byte) : ∀ x ∈ b64Quad a b c, x ∈ b64Tab := by
  intro x hx
  have ha := a.toNat_lt
  have hb := b.toNat_lt
  have hc := c.toNat_lt
  simp only [b64Quad, List.mem_cons, List.not_mem_nil, or_false] at hx
  rcases hx with rfl | rfl | rfl | rfl <;> exact b64Tab_getD (by omega)

theorem b64Chars_mem (raw : Bytes) : ∀ x ∈ b64Chars raw, x ∈ b64Tab := by
  induction raw using b64Chars.induct with
  | case1 => simp [b64Chars]
  | case2 a => exact b64Quad_mem a 0 0
  | case3 a b => exact b64Quad_mem a b 0
  | case4 a b c rest ih =>
      intro x hx
      rcases List.mem_append.mp hx with hx | hx
      · exact b64Quad_mem a b c x hx
      · exact ih x hx

theorem base64Encode_mem {raw out : Bytes} {cap : Nat} (h : base64Encode raw cap = some out) :
    ∀ x ∈ out, IsBase64 x := by
  simp only [base64Encode] at h
  split at h
  · cases h
  · obtain rfl := Option.some.inj h
    intro x hx
    split at hx
    · rcases List.mem_append.mp hx with hx | hx
      · exact .inl (b64Chars_mem raw x (List.mem_of_mem_take hx))
      · exact .inr (List.eq_of_mem_replicate hx)
    · exact .inl (b64Chars_mem raw x hx)

-- What ws_gen_key makes, and what the server takes for a key.
structure Key (key : Bytes) : Prop where
  length : key.length = 24
  chars : ∀ b ∈ key, IsBase64 b

theorem computeAccept_chars {key : Bytes} (h : key.length ≤ 24) :
    (computeAccept key).length = 28 ∧ ∀ b ∈ computeAccept key, IsBase64 b := by
  have hguid : guid.length = 36 := by decide
  have hconcat : ¬ (key ++ guid).length ≥ 256 := by
    rw [List.length_append, hguid]
    omega
  unfold computeAccept
  dsimp only
  rw [if_neg hconcat]
  cases hb : base64Encode (sha1 (key ++ guid)) acceptBase64Len with
  | none => simp [base64Encode, sha1_length, acceptBase64Len] at hb
  | some out =>
      have hlen := base64Encode_length hb
      rw [sha1_length] at hlen
      exact ⟨hlen, base64Encode_mem hb⟩

theorem port_length (port : UInt16) : (ascii (toString port.toNat)).length ≤ 5 :=
  digits_length_le (by decide) (Nat.lt_of_lt_of_le port.toNat_lt (by decide))

-- ---- the request ----

def Word (v : Bytes) : Prop :=
  v ≠ [] ∧ v.length ≤ 255 ∧ ∀ b ∈ v, b ≠ 32 ∧ b ≠ 9 ∧ b ≠ 13 ∧ b ≠ 10 ∧ b ≠ 0

-- What a client is asked for.
structure Asked (host path subProtocol key : Bytes) (offer : Option DeflateParams) : Prop where
  host : Word host
  path : Word path
  subProtocol : subProtocol.length ≤ 63 ∧ ∀ b ∈ subProtocol, b ≠ 13 ∧ b ≠ 10 ∧ b ≠ 0
  key : Key key
  bits : ∀ p ∈ offer, WindowBits p.clientMaxWindowBits ∧ WindowBits p.serverMaxWindowBits

def hostField (host : Bytes) (port : Nat) : Bytes × Bytes :=
  (ascii "Host", host ++ ascii ":" ++ ascii (toString port))

def upgradeFields (key : Bytes) : List (Bytes × Bytes) :=
  [(ascii "Upgrade", ascii "websocket"), (ascii "Connection", ascii "Upgrade"),
    (ascii "Sec-WebSocket-Key", key), (ascii "Sec-WebSocket-Version", ascii "13")]

def protocolFields (subProtocol : Bytes) : List (Bytes × Bytes) :=
  if subProtocol ≠ [] then [(ascii "Sec-WebSocket-Protocol", subProtocol)] else []

def offerFields (offer : Option DeflateParams) : List (Bytes × Bytes) :=
  offer.toList.map fun p => (ascii "Sec-WebSocket-Extensions", extensionOffer p)

def extraFields (key subProtocol : Bytes) (offer : Option DeflateParams) : List (Bytes × Bytes) :=
  upgradeFields key ++ protocolFields subProtocol ++ offerFields offer

def requestFields (host : Bytes) (port : Nat) (key subProtocol : Bytes) (offer : Option DeflateParams) :
    List (Bytes × Bytes) :=
  hostField host port :: extraFields key subProtocol offer

def requestLine (path : Bytes) : Bytes := ascii "GET" ++ 32 :: (path ++ 32 :: ascii "HTTP/1.1")

theorem fits_eq {cap : Nat} {s : Bytes} (h : s.length < cap) : fits cap s = some s := by
  unfold fits
  rw [if_neg (by omega)]

theorem upgradeFields_block (key : Bytes) : fieldBlock (upgradeFields key) =
    ascii "Upgrade: websocket\r\nConnection: Upgrade\r\nSec-WebSocket-Key: " ++ key ++
      ascii "\r\nSec-WebSocket-Version: 13\r\n" := by
  have hfirst : ascii "Upgrade: websocket\r\nConnection: Upgrade\r\nSec-WebSocket-Key: " =
      fieldBlock [(ascii "Upgrade", ascii "websocket"), (ascii "Connection", ascii "Upgrade")] ++
        (ascii "Sec-WebSocket-Key" ++ [58, 32]) := by decide
  have hlast : ascii "\r\nSec-WebSocket-Version: 13\r\n" =
      crlf ++ fieldBlock [(ascii "Sec-WebSocket-Version", ascii "13")] := by decide
  rw [hfirst, hlast]
  simp only [upgradeFields, fieldBlock, fieldLine, List.flatMap_cons, List.flatMap_nil, List.append_assoc,
    List.append_nil, List.cons_append, List.nil_append]

theorem protocolFields_block {subProtocol : Bytes} (h : subProtocol ≠ []) :
    fieldBlock (protocolFields subProtocol) =
      ascii "Sec-WebSocket-Protocol: " ++ subProtocol ++ ascii "\r\n" := by
  have hname : ascii "Sec-WebSocket-Protocol: " = ascii "Sec-WebSocket-Protocol" ++ [58, 32] := by
    decide
  have hend : ascii "\r\n" = crlf := by decide
  rw [protocolFields, if_pos h, hname, hend]
  simp [fieldBlock, fieldLine]

theorem offerFields_block (p : DeflateParams) :
    fieldBlock (offerFields (some p)) =
      ascii "Sec-WebSocket-Extensions: " ++ extensionOffer p ++ ascii "\r\n" := by
  have hname : ascii "Sec-WebSocket-Extensions: " = ascii "Sec-WebSocket-Extensions" ++ [58, 32] := by
    decide
  have hend : ascii "\r\n" = crlf := by decide
  rw [hname, hend]
  simp [offerFields, fieldBlock, fieldLine]

theorem upgradeFields_length {key : Bytes} (h : Key key) :
    (fieldBlock (upgradeFields key)).length = 113 := by
  have hnames : (ascii "Upgrade: websocket\r\nConnection: Upgrade\r\nSec-WebSocket-Key: ").length = 60 ∧
      (ascii "\r\nSec-WebSocket-Version: 13\r\n").length = 29 := by decide
  rw [upgradeFields_block, List.length_append, List.length_append, h.length, hnames.1, hnames.2]

theorem protocolFields_length {subProtocol : Bytes} (h : subProtocol.length ≤ 63) :
    (fieldBlock (protocolFields subProtocol)).length ≤ 89 := by
  have hname : (ascii "Sec-WebSocket-Protocol: ").length = 24 ∧ (ascii "\r\n").length = 2 := by decide
  by_cases hsub : subProtocol ≠ []
  · rw [protocolFields_block hsub, List.length_append, List.length_append, hname.1, hname.2]
    omega
  · rw [protocolFields, if_neg hsub]
    exact Nat.zero_le _

theorem offerFields_length {offer : Option DeflateParams}
    (h : ∀ p ∈ offer, WindowBits p.clientMaxWindowBits ∧ WindowBits p.serverMaxWindowBits) :
    (fieldBlock (offerFields offer)).length ≤ 156 := by
  have hname : (ascii "Sec-WebSocket-Extensions: ").length = 26 ∧ (ascii "\r\n").length = 2 := by decide
  cases offer with
  | none => exact Nat.zero_le _
  | some p =>
      have hext := extensionOffer_length (h p rfl).1 (h p rfl).2
      rw [offerFields_block, List.length_append, List.length_append, hname.1, hname.2]
      omega

-- The builder appends the offer to the fields it has.
theorem append_offer (offer : Option DeflateParams) (build : Bytes → Option Bytes)
    (fs : List (Bytes × Bytes)) :
    (∀ p ∈ offer, WindowBits p.clientMaxWindowBits ∧ WindowBits p.serverMaxWindowBits) →
    (fieldBlock fs).length ≤ 202 →
    (match offer with
      | none => build (fieldBlock fs)
      | some p =>
          (fits 192 (extensionOffer p)).bind fun ext =>
            (fits 512 (fieldBlock fs ++ ascii "Sec-WebSocket-Extensions: " ++ ext ++ ascii "\r\n")).bind build) =
      build (fieldBlock (fs ++ offerFields offer)) := by
  intro h hlen
  have hoffer := offerFields_length h
  rw [fieldBlock_append]
  cases offer with
  | none => exact congrArg build (List.append_nil _).symm
  | some p =>
      have hext := extensionOffer_length (h p rfl).1 (h p rfl).2
      dsimp only
      rw [fits_eq (by omega), Option.bind_some, List.append_assoc, List.append_assoc,
        ← List.append_assoc (ascii _), ← offerFields_block, fits_eq, Option.bind_some]
      rw [List.length_append]
      omega

theorem buildRequest_eq (cap : Nat) {host path subProtocol key : Bytes} {offer : Option DeflateParams}
    (h : Asked host path subProtocol key offer) (port : Nat) :
    buildRequest cap host port path key subProtocol offer =
      buildHttpRequest cap (ascii "GET") path host port
        (fieldBlock (extraFields key subProtocol offer)) := by
  have hup := upgradeFields_length h.key
  have hsub := protocolFields_length h.subProtocol.1
  unfold buildRequest extraFields
  rw [← upgradeFields_block, fits_eq (by omega)]
  simp only [Option.bind_eq_bind, Option.bind_some]
  by_cases hne : subProtocol ≠ []
  · rw [if_pos hne, List.append_assoc, List.append_assoc, ← List.append_assoc (ascii _),
      ← protocolFields_block hne, ← fieldBlock_append, fits_eq, Option.bind_some]
    · refine append_offer offer (buildHttpRequest cap (ascii "GET") path host port) _ h.bits ?_
      rw [fieldBlock_append, List.length_append]
      omega
    · rw [fieldBlock_append, List.length_append]
      omega
  · have hnone : upgradeFields key ++ protocolFields subProtocol = upgradeFields key := by
      rw [protocolFields, if_neg hne, List.append_nil]
    rw [if_neg hne, hnone]
    exact append_offer offer (buildHttpRequest cap (ascii "GET") path host port) _ h.bits (by omega)

theorem buildRequest_headOf {host path subProtocol key : Bytes} {offer : Option DeflateParams}
    (h : Asked host path subProtocol key offer) (port : UInt16) :
    buildRequest 1024 host port.toNat path key subProtocol offer =
      some (headOf (requestLine path) (requestFields host port.toNat key subProtocol offer)) := by
  have hhost : (ascii " HTTP/1.1\r\nHost: ") = 32 :: (ascii "HTTP/1.1" ++ crlf ++ ascii "Host" ++ [58, 32]) := by
    decide
  have hblank : ascii " " = [32] := by decide
  have hend : ascii "\r\n" = crlf := by decide
  have heq : ascii "GET" ++ ascii " " ++ path ++ ascii " HTTP/1.1\r\nHost: " ++ host ++ ascii ":" ++
      ascii (toString port.toNat) ++ ascii "\r\n" ++ fieldBlock (extraFields key subProtocol offer) ++
      ascii "\r\n" = headOf (requestLine path) (requestFields host port.toNat key subProtocol offer) := by
    rw [hhost, hblank, hend, requestFields, headOf, fieldBlock_cons, requestLine, fieldLine, hostField]
    simp only [List.append_assoc, List.cons_append, List.nil_append]
  have hnames : (ascii "GET").length = 3 ∧ (ascii " ").length = 1 ∧
      (ascii " HTTP/1.1\r\nHost: ").length = 17 ∧ (ascii ":").length = 1 ∧ (ascii "\r\n").length = 2 := by
    decide
  have hup := upgradeFields_length h.key
  have hsub := protocolFields_length h.subProtocol.1
  have hoffer := offerFields_length h.bits
  have hport := port_length port
  have hhostLen := h.host.2.1
  have hpathLen := h.path.2.1
  rw [buildRequest_eq 1024 h, buildHttpRequest, fits_eq, heq]
  simp only [extraFields, fieldBlock_append, List.length_append, hnames]
  omega

theorem host_value {host : Bytes} (h : Word host) (port : Nat) :
    Value (host ++ ascii ":" ++ ascii (toString port)) := by
  refine .of_all fun b hb => ?_
  rcases List.mem_append.mp hb with hb | hb
  · rcases List.mem_append.mp hb with hb | hb
    · obtain ⟨hsp, htab, hcr, hlf, -⟩ := h.2.2 b hb
      exact ⟨hcr, hlf, by simp [isBlank, hsp, htab]⟩
    · have hcolon : ∀ b ∈ ascii ":", b ≠ 13 ∧ b ≠ 10 ∧ isBlank b = false :=
        List.all_iff_forall_prop.mp (by decide)
      exact hcolon b hb
  · exact digits_plain port b hb

theorem key_value {key : Bytes} (h : ∀ b ∈ key, IsBase64 b) : Value key :=
  .of_all fun b hb => ⟨(h b hb).plain.1, (h b hb).plain.2.1, (h b hb).plain.2.2.2⟩

-- The names the builders write.
def fieldNames : List Bytes :=
  [ascii "Host", ascii "Upgrade", ascii "Connection", ascii "Sec-WebSocket-Key",
    ascii "Sec-WebSocket-Version", ascii "Sec-WebSocket-Accept", ascii "Sec-WebSocket-Protocol",
    ascii "Sec-WebSocket-Extensions"]

theorem fieldNames_ok : ∀ n ∈ fieldNames, (∀ b ∈ n, b ≠ 13 ∧ b ≠ 10) ∧ 58 ∉ n := by decide +kernel

theorem named_field {n v : Bytes} (hn : n ∈ fieldNames) (hv : Unbroken v) : Field (n, v) :=
  ⟨(fieldNames_ok n hn).1, hv, (fieldNames_ok n hn).2⟩

theorem unbroken_of {v : Bytes} (h : ∀ b ∈ v, b ≠ 13 ∧ b ≠ 10 := by decide) : Unbroken v := h

theorem requestFields_ok {host path subProtocol key : Bytes} {offer : Option DeflateParams}
    (h : Asked host path subProtocol key offer) (port : Nat) :
    ∀ f ∈ requestFields host port key subProtocol offer, Field f ∧ f.1 ∈ fieldNames := by
  have hmem : ascii "Host" ∈ fieldNames ∧ ascii "Upgrade" ∈ fieldNames ∧
      ascii "Connection" ∈ fieldNames ∧ ascii "Sec-WebSocket-Key" ∈ fieldNames ∧
      ascii "Sec-WebSocket-Version" ∈ fieldNames ∧ ascii "Sec-WebSocket-Protocol" ∈ fieldNames ∧
      ascii "Sec-WebSocket-Extensions" ∈ fieldNames := by decide
  obtain ⟨hhost, hup, hconn, hkey, hver, hproto, hext⟩ := hmem
  have hclosed : Unbroken (ascii "websocket") ∧ Unbroken (ascii "Upgrade") ∧ Unbroken (ascii "13") := by
    refine ⟨?_, ?_, ?_⟩ <;> exact List.all_iff_forall_prop.mp (by decide)
  intro f hf
  simp only [requestFields, extraFields, upgradeFields, List.mem_cons, List.mem_append, List.not_mem_nil,
    or_false] at hf
  rcases hf with rfl | ((rfl | rfl | rfl | rfl) | hf) | hf
  · exact ⟨named_field hhost (host_value h.host port).unbroken, hhost⟩
  · exact ⟨named_field hup hclosed.1, hup⟩
  · exact ⟨named_field hconn hclosed.2.1, hconn⟩
  · exact ⟨named_field hkey (key_value h.key.chars).unbroken, hkey⟩
  · exact ⟨named_field hver hclosed.2.2, hver⟩
  · unfold protocolFields at hf
    split at hf
    · rw [List.mem_singleton.mp hf]
      exact ⟨named_field hproto fun b hb => ⟨(h.subProtocol.2 b hb).1, (h.subProtocol.2 b hb).2.1⟩, hproto⟩
    · exact absurd hf List.not_mem_nil
  · obtain ⟨p, hp, rfl⟩ := List.mem_map.mp hf
    have hbits := h.bits p (Option.mem_toList.mp hp)
    exact ⟨named_field hext (offer_value hbits.1 hbits.2).unbroken, hext⟩

-- The first field of a name that stands behind fields of other names.
theorem find_field {name : Bytes} (before : List (Bytes × Bytes)) {f : Bytes × Bytes}
    (hbefore : ∀ n ∈ before.map Prod.fst, ciEq n name = false) (hf : ciEq f.1 name = true)
    (after : List (Bytes × Bytes)) :
    (before ++ f :: after).find? (fun g => ciEq g.1 name) = some f := by
  rw [List.find?_append, List.find?_eq_none.mpr fun g hg => by rw [hbefore g.1 (List.mem_map_of_mem hg)]; decide,
    Option.none_or]
  simp only [List.find?_cons, hf]

theorem no_field {name : Bytes} {fields : List (Bytes × Bytes)}
    (hnames : ∀ f ∈ fields, f.1 ∈ fieldNames) (hname : ∀ n ∈ fieldNames, ciEq n name = false) :
    fields.find? (fun g => ciEq g.1 name) = none :=
  List.find?_eq_none.mpr fun g hg => by rw [hname g.1 (hnames g hg)]; decide

theorem requestLine_parsed {path : Bytes} (h : Word path) :
    Unbroken (requestLine path) ∧
      parseStartLine (requestLine path) = some
        { isResponse := false, method := .get, methodRef := some ⟨0, 3⟩
          target := some ⟨4, path.length⟩, statusCode := 0, keepAlive := true } := by
  obtain ⟨hne, -, hbytes⟩ := h
  have hget : ∀ b ∈ ascii "GET", (b ≠ 13 ∧ b ≠ 10) ∧ b ≠ 32 :=
    List.all_iff_forall_prop.mp (by decide)
  have hver : ∀ b ∈ 32 :: ascii "HTTP/1.1", b ≠ 13 ∧ b ≠ 10 :=
    List.all_iff_forall_prop.mp (by decide)
  constructor
  · intro b hb
    rcases List.mem_append.mp hb with hb | hb
    · exact (hget b hb).1
    · rcases List.mem_cons.mp hb with rfl | hb
      · decide
      · rcases List.mem_append.mp hb with hb | hb
        · exact ⟨(hbytes b hb).2.2.1, (hbytes b hb).2.2.2.1⟩
        · exact hver b hb
  · have hstart : (ascii "HTTP/").isPrefixOf (requestLine path) = false := rfl
    have hfirst : memchr 32 (requestLine path) = some 3 :=
      memchr_first (fun hb => (hget 32 hb).2 rfl) _
    have hrest : (requestLine path).drop (3 + 1) = path ++ 32 :: ascii "HTTP/1.1" := rfl
    have hsecond : memchr 32 (path ++ 32 :: ascii "HTTP/1.1") = some path.length :=
      memchr_first (fun hb => (hbytes 32 hb).1 rfl) _
    have hversion : (path ++ 32 :: ascii "HTTP/1.1").drop (path.length + 1) = ascii "HTTP/1.1" := by
      rw [← List.drop_drop, List.drop_left]
      rfl
    have hmethod : parseMethod ((requestLine path).take 3) = .get := rfl
    unfold parseStartLine parseRequestLine
    rw [hstart, hfirst]
    dsimp only
    rw [hrest, hsecond]
    dsimp only
    rw [hversion, hmethod, if_neg (by decide), if_neg (by decide),
      if_neg (fun hl => hne (List.length_eq_zero_iff.mp hl))]
    rfl

-- The fields of a message without a body that asks for an upgrade.
theorem parseFields_upgrade {fields : List (Bytes × Bytes)} (hok : ∀ f ∈ fields, Field f)
    (hnames : ∀ f ∈ fields, f.1 ∈ fieldNames)
    (hup : (fields.find? fun f => ciEq f.1 (ascii "upgrade")) = some (ascii "Upgrade", ascii "websocket"))
    (hconn : (fields.find? fun f => ciEq f.1 (ascii "connection")) =
      some (ascii "Connection", ascii "Upgrade"))
    (keepAlive : Bool) :
    parseFields (fieldBlock fields) keepAlive = some ⟨true, keepAlive, 0⟩ := by
  have htokens : hdrHasToken (trim (ascii "Upgrade")) (ascii "upgrade") = true ∧
      hdrHasToken (trim (ascii "Upgrade")) (ascii "close") = false := by decide
  have hlength : ∀ n ∈ fieldNames, ciEq n (ascii "content-length") = false := by decide
  have hchunked : ∀ n ∈ fieldNames, ciEq n (ascii "transfer-encoding") = false := by decide
  unfold parseFields contentLength
  dsimp only
  rw [findHeaderIn_block hok, findHeaderIn_block hok, findHeaderIn_block hok, findHeaderIn_block hok,
    hconn, hup, no_field hnames hlength, no_field hnames hchunked]
  simp [htokens]

-- What the server looks up in the fields of a request.
theorem requestFields_find (host : Bytes) (port : Nat) (key subProtocol : Bytes)
    (offer : Option DeflateParams) (fields : List (Bytes × Bytes))
    (hfields : fields = requestFields host port key subProtocol offer) :
    (fields.find? fun f => ciEq f.1 (ascii "upgrade")) = some (ascii "Upgrade", ascii "websocket") ∧
      (fields.find? fun f => ciEq f.1 (ascii "connection")) = some (ascii "Connection", ascii "Upgrade") ∧
      (fields.find? fun f => ciEq f.1 (ascii "sec-websocket-key")) =
        some (ascii "Sec-WebSocket-Key", key) ∧
      (fields.find? fun f => ciEq f.1 (ascii "sec-websocket-version")) =
        some (ascii "Sec-WebSocket-Version", ascii "13") := by
  have hup : ∀ n ∈ [ascii "Host"], ciEq n (ascii "upgrade") = false := by decide
  have hconn : ∀ n ∈ [ascii "Host", ascii "Upgrade"], ciEq n (ascii "connection") = false := by decide
  have hkey : ∀ n ∈ [ascii "Host", ascii "Upgrade", ascii "Connection"],
      ciEq n (ascii "sec-websocket-key") = false := by decide
  have hver : ∀ n ∈ [ascii "Host", ascii "Upgrade", ascii "Connection", ascii "Sec-WebSocket-Key"],
      ciEq n (ascii "sec-websocket-version") = false := by decide
  subst hfields
  refine ⟨?_, ?_, ?_, ?_⟩
  · exact find_field [hostField host port] hup (by decide) _
  · exact find_field (hostField host port :: (upgradeFields key).take 1) hconn (by decide) _
  · exact find_field (hostField host port :: (upgradeFields key).take 2) hkey rfl _
  · exact find_field (hostField host port :: (upgradeFields key).take 3) hver (by decide) _

theorem requestFields_offer (host : Bytes) (port : Nat) (key subProtocol : Bytes)
    (offer : Option DeflateParams) :
    ((requestFields host port key subProtocol offer).find? fun f =>
        ciEq f.1 (ascii "sec-websocket-extensions")) =
      offer.map fun p => (ascii "Sec-WebSocket-Extensions", extensionOffer p) := by
  have hothers : ∀ n ∈ [ascii "Host", ascii "Upgrade", ascii "Connection", ascii "Sec-WebSocket-Key",
      ascii "Sec-WebSocket-Version", ascii "Sec-WebSocket-Protocol"],
      ciEq n (ascii "sec-websocket-extensions") = false := by decide
  have hself : ciEq (ascii "Sec-WebSocket-Extensions") (ascii "sec-websocket-extensions") = true := by
    decide
  have hbefore : ∀ n ∈ (hostField host port :: (upgradeFields key ++ protocolFields subProtocol)).map Prod.fst,
      ciEq n (ascii "sec-websocket-extensions") = false := by
    intro n hn
    unfold protocolFields at hn
    split at hn
    · exact hothers n hn
    · exact hothers n (List.mem_append_left [ascii "Sec-WebSocket-Protocol"] hn)
  cases offer with
  | none =>
      have hall : requestFields host port key subProtocol none =
          hostField host port :: (upgradeFields key ++ protocolFields subProtocol) :=
        congrArg (hostField host port :: ·) (List.append_nil _)
      rw [hall, List.find?_eq_none.mpr fun g hg => by rw [hbefore g.1 (List.mem_map_of_mem hg)]; decide]
      rfl
  | some p => exact find_field _ hbefore hself []

theorem headOf_length (first : Bytes) (fields : List (Bytes × Bytes)) :
    (headOf first fields).length = first.length + (fieldBlock fields).length + 4 := by
  simp only [headOf, crlf, List.length_append, List.length_cons, List.length_nil]
  omega

theorem headMsg_start (start : StartLine) (f : Fields) (first : Bytes) (fields : List (Bytes × Bytes)) :
    (headMsg start f first fields).start = start := rfl

theorem headMsg_consumed (start : StartLine) (f : Fields) (first : Bytes) (fields : List (Bytes × Bytes)) :
    (headMsg start f first fields).consumed = (headOf first fields).length := rfl

theorem parseRequest_built {host path subProtocol key : Bytes} {offer : Option DeflateParams}
    (h : Asked host path subProtocol key offer) (port : Nat) (rest : Bytes) :
    parseRequest (headOf (requestLine path) (requestFields host port key subProtocol offer) ++ rest) =
      (((headOf (requestLine path) (requestFields host port key subProtocol offer)).length : Int),
        { status := 0, key := key, deflateOffered := offer.isSome
          clientNoContextTakeover := offer.any (·.clientNoContextTakeover) }) := by
  have hok := requestFields_ok h port
  obtain ⟨hline, hstart⟩ := requestLine_parsed h.path
  obtain ⟨hup, hconn, hkey, hver⟩ :=
    requestFields_find host port key subProtocol offer (requestFields host port key subProtocol offer) rfl
  have hoffer := requestFields_offer host port key subProtocol offer
  have hfield : ∀ f ∈ requestFields host port key subProtocol offer, Field f := fun f hf => (hok f hf).1
  have hparse := parse_headOf hline hfield hstart
    (parseFields_upgrade hfield (fun f hf => (hok f hf).2) hup hconn true) rfl rest
  have hlong : ¬ (headOf (requestLine path) (requestFields host port key subProtocol offer) ++ rest).length
      < 16 := by
    have hline16 : (requestLine path).length = path.length + 13 := by
      simp [requestLine, ascii]
    rw [List.length_append, headOf_length]
    omega
  have hcstring : cString key = key := by
    unfold cString
    rw [List.takeWhile_eq_self_iff]
    intro b hb
    simpa using (h.key.chars b hb).plain.2.2.1
  have hvalues : trim (ascii "websocket") = ascii "websocket" ∧ trim (ascii "Upgrade") = ascii "Upgrade" ∧
      trim (ascii "13") = ascii "13" := by decide
  have htokens : tokenEq (ascii "websocket") (ascii "websocket") = true ∧
      tokenListHas (ascii "Upgrade") (ascii "upgrade") = true ∧
      tokenEq (ascii "13") (ascii "13") = true := by decide
  unfold parseRequest
  rw [if_neg hlong, hparse]
  dsimp only
  unfold checkRequest
  simp only [findHeader_headOf hfield, hup, hconn, hkey, hver, hoffer, Option.map_some, Option.any_some,
    hvalues, htokens, (key_value h.key.chars).trimmed, h.key.length, hcstring]
  simp only [headMsg_start, headMsg_consumed, Bool.false_eq_true, if_false, ne_eq, not_true_eq_false,
    Bool.not_true, keyBase64Len]
  cases offer with
  | none => rfl
  | some p =>
      have hbits := h.bits p rfl
      obtain ⟨hpmd, hctx⟩ := offer_scanned hbits.1 hbits.2
      simp only [Option.map_some, Option.any_some, (offer_value hbits.1 hbits.2).trimmed, hpmd, hctx,
        Bool.true_and, Option.isSome_some]

-- ---- the response ----

def extensionFields (enableDeflate : Bool) : List (Bytes × Bytes) :=
  if enableDeflate then [(ascii "Sec-WebSocket-Extensions", pmd)] else []

def responseFields (key : Bytes) (enableDeflate : Bool) : List (Bytes × Bytes) :=
  [(ascii "Upgrade", ascii "websocket"), (ascii "Connection", ascii "Upgrade"),
    (ascii "Sec-WebSocket-Accept", computeAccept key)] ++ extensionFields enableDeflate

def responseLine : Bytes := ascii "HTTP/1.1 " ++ ascii "101" ++ ascii " " ++ ascii "Switching Protocols"

theorem buildResponse_eq (cap : Nat) {key : Bytes} (h : key.length ≤ 24) (enableDeflate : Bool) :
    buildResponse cap key enableDeflate = fits cap (headOf responseLine (responseFields key enableDeflate)) ∧
      (headOf responseLine (responseFields key enableDeflate)).length < 512 := by
  have hend : ascii "\r\n" = crlf := by decide
  have hstatus : ascii (toString 101) = ascii "101" := by decide
  have hfirst : ascii "Upgrade: websocket\r\nConnection: Upgrade\r\nSec-WebSocket-Accept: " =
      fieldBlock [(ascii "Upgrade", ascii "websocket"), (ascii "Connection", ascii "Upgrade")] ++
        (ascii "Sec-WebSocket-Accept" ++ [58, 32]) := by decide
  have hext : ascii "Sec-WebSocket-Extensions: " ++ pmd ++ crlf =
      fieldBlock [(ascii "Sec-WebSocket-Extensions", pmd)] := by decide
  have hsizes : (ascii "Upgrade: websocket\r\nConnection: Upgrade\r\nSec-WebSocket-Accept: ").length = 63 ∧
      (fieldBlock [(ascii "Sec-WebSocket-Extensions", pmd)]).length = 46 ∧ crlf.length = 2 ∧
      responseLine.length = 32 := by decide
  have haccept := (computeAccept_chars h).1
  have hblock : fieldBlock (responseFields key false) =
      ascii "Upgrade: websocket\r\nConnection: Upgrade\r\nSec-WebSocket-Accept: " ++ computeAccept key ++
        crlf := by
    rw [hfirst]
    simp only [responseFields, extensionFields, Bool.false_eq_true, if_false, fieldBlock, fieldLine,
      List.append_nil, List.flatMap_cons, List.flatMap_nil, List.append_assoc, List.cons_append,
      List.nil_append]
  have hplain : (fieldBlock (responseFields key false)).length = 93 := by
    rw [hblock, List.length_append, List.length_append, haccept, hsizes.1, hsizes.2.2.1]
  have hmore : fieldBlock (responseFields key true) =
      fieldBlock (responseFields key false) ++ fieldBlock [(ascii "Sec-WebSocket-Extensions", pmd)] := by
    rw [← fieldBlock_append]
    rfl
  have hline : ascii "HTTP/1.1 " ++ ascii "101" ++ ascii " " ++
      (some (ascii "Switching Protocols")).getD (ascii "(null)") ++ crlf = responseLine ++ crlf := rfl
  have hjoin : fieldBlock (responseFields key false) ++ ascii "Sec-WebSocket-Extensions: " ++ pmd ++ crlf =
      fieldBlock (responseFields key true) := by
    rw [hmore, ← hext, List.append_assoc, List.append_assoc, List.append_assoc]
  have hlong : (fieldBlock (responseFields key true)).length = 139 := by
    rw [hmore, List.length_append, hplain, hsizes.2.1]
  have hall : (headOf responseLine (responseFields key enableDeflate)).length < 512 := by
    rw [headOf_length, hsizes.2.2.2]
    cases enableDeflate <;> omega
  refine ⟨?_, hall⟩
  unfold buildResponse buildHttpResponse
  rw [hend, ← hblock, fits_eq (by omega), hstatus, hline,
    fits_eq (by rw [List.length_append]; omega)]
  simp only [Option.bind_eq_bind, Option.bind_some]
  cases enableDeflate with
  | false => rfl
  | true =>
      rw [if_pos rfl, hjoin, fits_eq (by omega), Option.bind_some]
      rfl

theorem buildResponse_headOf {key : Bytes} (h : Key key) (enableDeflate : Bool) :
    buildResponse 512 key enableDeflate = some (headOf responseLine (responseFields key enableDeflate)) := by
  obtain ⟨heq, hlen⟩ := buildResponse_eq 512 h.length.le enableDeflate
  rw [heq, fits_eq hlen]

theorem responseFields_ok {key : Bytes} (h : key.length ≤ 24) (enableDeflate : Bool) :
    ∀ f ∈ responseFields key enableDeflate, Field f ∧ f.1 ∈ fieldNames := by
  have hmem : ascii "Upgrade" ∈ fieldNames ∧ ascii "Connection" ∈ fieldNames ∧
      ascii "Sec-WebSocket-Accept" ∈ fieldNames ∧ ascii "Sec-WebSocket-Extensions" ∈ fieldNames := by
    decide
  obtain ⟨hup, hconn, haccept, hext⟩ := hmem
  have hclosed : Unbroken (ascii "websocket") ∧ Unbroken (ascii "Upgrade") ∧ Unbroken pmd := by
    refine ⟨?_, ?_, ?_⟩ <;> exact List.all_iff_forall_prop.mp (by decide)
  intro f hf
  simp only [responseFields, List.mem_cons, List.mem_append, List.not_mem_nil, or_false] at hf
  rcases hf with (rfl | rfl | rfl) | hf
  · exact ⟨named_field hup hclosed.1, hup⟩
  · exact ⟨named_field hconn hclosed.2.1, hconn⟩
  · exact ⟨named_field haccept (key_value (computeAccept_chars h).2).unbroken, haccept⟩
  · unfold extensionFields at hf
    split at hf
    · rw [List.mem_singleton.mp hf]
      exact ⟨named_field hext hclosed.2.2, hext⟩
    · exact absurd hf List.not_mem_nil

-- What the client looks up in the fields of a response.
theorem responseFields_find (key : Bytes) (enableDeflate : Bool) :
    ((responseFields key enableDeflate).find? fun f => ciEq f.1 (ascii "upgrade")) =
        some (ascii "Upgrade", ascii "websocket") ∧
      ((responseFields key enableDeflate).find? fun f => ciEq f.1 (ascii "connection")) =
        some (ascii "Connection", ascii "Upgrade") ∧
      ((responseFields key enableDeflate).find? fun f => ciEq f.1 (ascii "sec-websocket-accept")) =
        some (ascii "Sec-WebSocket-Accept", computeAccept key) ∧
      ((responseFields key enableDeflate).find? fun f => ciEq f.1 (ascii "sec-websocket-extensions")) =
        if enableDeflate then some (ascii "Sec-WebSocket-Extensions", pmd) else none := by
  have hconn : ∀ n ∈ [ascii "Upgrade"], ciEq n (ascii "connection") = false := by decide
  have haccept : ∀ n ∈ [ascii "Upgrade", ascii "Connection"],
      ciEq n (ascii "sec-websocket-accept") = false := by decide
  have hext : ∀ n ∈ [ascii "Upgrade", ascii "Connection", ascii "Sec-WebSocket-Accept"],
      ciEq n (ascii "sec-websocket-extensions") = false := by decide
  refine ⟨?_, ?_, ?_, ?_⟩
  · exact find_field [] (by decide) (by decide) _
  · exact find_field ((responseFields key enableDeflate).take 1) hconn (by decide) _
  · exact find_field ((responseFields key enableDeflate).take 2) haccept rfl _
  · cases enableDeflate with
    | false => exact List.find?_eq_none.mpr fun g hg => by rw [hext g.1 (List.mem_map_of_mem hg)]; decide
    | true => exact find_field ((responseFields key false).take 3) hext (by decide) []

theorem responseFields_none (key : Bytes) (enableDeflate : Bool) (name : Bytes)
    (h : ∀ n ∈ [ascii "Upgrade", ascii "Connection", ascii "Sec-WebSocket-Accept",
      ascii "Sec-WebSocket-Extensions"], ciEq n name = false) :
    (responseFields key enableDeflate).find? (fun f => ciEq f.1 name) = none := by
  refine List.find?_eq_none.mpr fun g hg => ?_
  have hname : g.1 ∈ (responseFields key true).map Prod.fst := by
    cases enableDeflate with
    | false => exact List.mem_append_left [ascii "Sec-WebSocket-Extensions"] (List.mem_map_of_mem hg)
    | true => exact List.mem_map_of_mem hg
  rw [h g.1 hname]
  decide

theorem responseLine_parsed : Unbroken responseLine ∧
    parseStartLine responseLine = some
      { isResponse := true, method := .unknown, methodRef := none, target := none, statusCode := 101
        keepAlive := true } :=
  ⟨List.all_iff_forall_prop.mp (by decide), by decide⟩

theorem copyString_eq {cap : Nat} {v : Bytes} (hlen : v.length < cap) (h : ∀ b ∈ v, b ≠ 0) :
    copyString cap v = v := by
  unfold copyString cString
  rw [List.take_of_length_le (by omega), List.takeWhile_eq_self_iff]
  intro b hb
  simpa using h b hb

def switchingLine : StartLine :=
  { isResponse := true, method := .unknown, methodRef := none, target := none, statusCode := 101
    keepAlive := true }

-- What the client reads of the response.
def answered (key : Bytes) (enableDeflate : Bool) : HandshakeResponse :=
  { statusCode := 101, accept := computeAccept key, protocol := [], location := []
    extensions := if enableDeflate then pmd else [] }

theorem responseOf_answer {key : Bytes} (h : key.length ≤ 24) (enableDeflate : Bool) (f : Fields) (rest : Bytes) :
    responseOf (headOf responseLine (responseFields key enableDeflate) ++ rest)
        (headMsg switchingLine f responseLine (responseFields key enableDeflate)) =
      answered key enableDeflate := by
  have hfield : ∀ g ∈ responseFields key enableDeflate, Field g := fun g hg =>
    (responseFields_ok h enableDeflate g hg).1
  obtain ⟨-, -, haccept, hext⟩ := responseFields_find key enableDeflate
  obtain ⟨hlen, hchars⟩ := computeAccept_chars h
  have hproto := responseFields_none key enableDeflate (ascii "sec-websocket-protocol")
    (by decide)
  have hlocation := responseFields_none key enableDeflate (ascii "location") (by decide)
  have hvalue : copyString acceptBase64Len (trim (computeAccept key)) = computeAccept key := by
    rw [(key_value hchars).trimmed]
    exact copyString_eq (by rw [hlen]; decide) fun b hb => (hchars b hb).plain.2.2.1
  have hnone : copyString 64 [] = [] ∧ copyString 256 [] = [] := by decide
  have hpmd : copyString 256 (trim pmd) = pmd := by decide
  unfold responseOf answered
  simp only [findHeader_headOf hfield, haccept, hproto, hlocation, hext, Option.map_some, Option.map_none,
    Option.getD_some, Option.getD_none, hvalue, hnone, headMsg_start]
  cases enableDeflate with
  | false => rfl
  | true => rw [if_pos rfl, Option.map_some, Option.getD_some, hpmd]; rfl

theorem parseResponse_answer {key : Bytes} (h : key.length ≤ 24) (enableDeflate : Bool) (rest : Bytes) :
    parseResponse (headOf responseLine (responseFields key enableDeflate) ++ rest) =
      (((headOf responseLine (responseFields key enableDeflate)).length : Int), answered key enableDeflate) := by
  have hok := responseFields_ok h enableDeflate
  have hfield : ∀ f ∈ responseFields key enableDeflate, Field f := fun f hf => (hok f hf).1
  have hnames : ∀ f ∈ responseFields key enableDeflate, f.1 ∈ fieldNames := fun f hf => (hok f hf).2
  obtain ⟨hup, hconn, -, -⟩ := responseFields_find key enableDeflate
  have hparse := parse_headOf responseLine_parsed.1 hfield responseLine_parsed.2
    (parseFields_upgrade hfield hnames hup hconn true) rfl rest
  have haccept : ¬ (answered key enableDeflate).unaccepted := by
    rintro ⟨-, hempty⟩
    have hlen := (computeAccept_chars h).1
    rw [show computeAccept key = [] from hempty] at hlen
    exact absurd hlen (by decide)
  have hlong : 14 ≤ (headOf responseLine (responseFields key enableDeflate) ++ rest).length := by
    have hline : responseLine.length = 32 := by decide
    rw [List.length_append, headOf_length, hline]
    omega
  rw [parseResponse_complete hparse rfl hlong]
  have hresp := responseOf_answer h enableDeflate ⟨true, true, 0⟩ rest
  unfold switchingLine at hresp
  rw [hresp, if_neg haccept]
  rfl

theorem parseResponse_built {key : Bytes} (h : Key key) (enableDeflate : Bool) (rest : Bytes) :
    parseResponse (headOf responseLine (responseFields key enableDeflate) ++ rest) =
      (((headOf responseLine (responseFields key enableDeflate)).length : Int), answered key enableDeflate) :=
  parseResponse_answer h.length.le enableDeflate rest

-- ---- both ways ----

theorem handshake_round_trip (host path subProtocol key : Bytes) (port : UInt16)
    (offer : Option DeflateParams) (h : Asked host path subProtocol key offer) (enableDeflate : Bool)
    (rest : Bytes) :
    ∃ request response,
      buildRequest 1024 host port.toNat path key subProtocol offer = some request ∧
      parseRequest (request ++ rest) = ((request.length : Int),
        { status := 0, key := key, deflateOffered := offer.isSome
          clientNoContextTakeover := offer.any (·.clientNoContextTakeover) }) ∧
      buildResponse 512 key enableDeflate = some response ∧
      (parseResponse (response ++ rest)).1 = (response.length : Int) ∧
      (parseResponse (response ++ rest)).2.statusCode = 101 ∧
      verifyAccept key (parseResponse (response ++ rest)).2.accept = true ∧
      (parseResponse (response ++ rest)).2.extensions = if enableDeflate then pmd else [] := by
  have hresponse := parseResponse_built h.key enableDeflate rest
  refine ⟨_, _, buildRequest_headOf h port, parseRequest_built h port.toNat rest,
    buildResponse_headOf h.key enableDeflate, ?_, ?_, ?_, ?_⟩
  · rw [hresponse]
  · rw [hresponse]
    rfl
  · rw [hresponse]
    exact beq_self_eq_true (computeAccept key)
  · rw [hresponse]
    rfl

-- A chat that offers a window of 2^10 bytes, with a frame right behind both messages.
theorem handshake_round_trip_chat :
    ∃ request response,
      buildRequest 1024 (ascii "h") (8080 : UInt16).toNat (ascii "/c") (ascii "dGhlIHNhbXBsZSBub25jZQ==")
        (ascii "chat") (some ⟨false, true, 0, 10, 6⟩) = some request ∧
      parseRequest (request ++ [0x81, 0]) = ((request.length : Int),
        { status := 0, key := ascii "dGhlIHNhbXBsZSBub25jZQ==", deflateOffered := true
          clientNoContextTakeover := true }) ∧
      buildResponse 512 (ascii "dGhlIHNhbXBsZSBub25jZQ==") true = some response ∧
      (parseResponse (response ++ [0x81, 0])).1 = (response.length : Int) ∧
      (parseResponse (response ++ [0x81, 0])).2.statusCode = 101 ∧
      verifyAccept (ascii "dGhlIHNhbXBsZSBub25jZQ==") (parseResponse (response ++ [0x81, 0])).2.accept =
        true ∧
      (parseResponse (response ++ [0x81, 0])).2.extensions = pmd := by
  have hasked : Asked (ascii "h") (ascii "/c") (ascii "chat") (ascii "dGhlIHNhbXBsZSBub25jZQ==")
      (some ⟨false, true, 0, 10, 6⟩) := by
    constructor
    · exact ⟨by decide, by decide, List.all_iff_forall_prop.mp (by decide)⟩
    · exact ⟨by decide, by decide, List.all_iff_forall_prop.mp (by decide)⟩
    · exact ⟨by decide, List.all_iff_forall_prop.mp (by decide)⟩
    · constructor
      · decide
      · unfold IsBase64
        exact List.all_iff_forall_prop.mp (by decide)
    · intro p hp
      obtain rfl := Option.some.inj hp
      unfold WindowBits
      decide
  exact handshake_round_trip _ _ _ _ 8080 _ hasked true [0x81, 0]

end Sevent.Ws
