import Sevent.Ws.Base64
import Sevent.Ws.Sha1
import Sevent.Ws.Upgrade

-- The accept value of ws_build_response, over the key as the client sent it.
namespace Sevent.Ws

open Sevent.Http (Msg findHeader headOf headMsg parse_headOf findHeader_headOf)

-- ---- Base64 and SHA-1 by the standards ----

theorem sha1_eq {data : Bytes} (h : data.length < 2305843009213693952) :
    sha1 data = Fips.sha1 data := (sha1Init_holds.update data).final h

theorem computeAccept_eq {key : Bytes} (h : key.length ≤ 24) :
    computeAccept key = Rfc4648.encode (Fips.sha1 (key ++ guid)) := by
  have hguid : guid.length = 36 := by decide
  have hconcat : (key ++ guid).length ≤ 60 := by
    rw [List.length_append, hguid]
    omega
  have hlen := sha1_length (key ++ guid)
  unfold computeAccept
  dsimp only
  rw [if_neg (by omega), base64Encode_eq, hlen, if_neg (by decide), Option.getD_some,
    sha1_eq (by omega)]

-- ---- the response ----

-- What a reader of the response finds under Sec-WebSocket-Accept.
def Accepts (resp value : Bytes) : Prop :=
  ∃ m, Http.parse resp = .complete m ∧ findHeader resp m (ascii "sec-websocket-accept") = some value

theorem buildResponse_accepts {cap : Nat} {key resp : Bytes} {enableDeflate : Bool}
    (hkey : key.length ≤ 24) (h : buildResponse cap key enableDeflate = some resp) (value : Bytes) :
    Accepts resp value ↔ computeAccept key = value := by
  rw [(buildResponse_eq cap hkey enableDeflate).1] at h
  have hresp : resp = headOf responseLine (responseFields key enableDeflate) := by
    unfold fits at h
    split at h
    · cases h
    · exact (Option.some.inj h).symm
  have hok := responseFields_ok hkey enableDeflate
  obtain ⟨hup, hconn, haccept, -⟩ := responseFields_find key enableDeflate
  have hfield : ∀ f ∈ responseFields key enableDeflate, Http.Field f := fun f hf => (hok f hf).1
  have hparse := parse_headOf responseLine_parsed.1 hfield responseLine_parsed.2
    (parseFields_upgrade hfield (fun f hf => (hok f hf).2) hup hconn true) rfl []
  rw [List.append_nil, ← hresp] at hparse
  have hfind : findHeader (headOf responseLine (responseFields key enableDeflate) ++ [])
      (headMsg switchingLine ⟨true, true, 0⟩ responseLine (responseFields key enableDeflate))
      (ascii "sec-websocket-accept") = _ := findHeader_headOf hfield _ _ _ _
  rw [List.append_nil, ← hresp, haccept, Option.map_some,
    (key_value (computeAccept_chars hkey).2).trimmed] at hfind
  constructor
  · rintro ⟨m, hm, hv⟩
    cases hm.symm.trans hparse
    exact Option.some.inj (hfind.symm.trans hv)
  · rintro rfl
    exact ⟨_, hparse, hfind⟩

theorem cString_eq_iff (b : Bytes) : cString b = b ↔ 0 ∉ b := by
  unfold cString
  rw [List.takeWhile_eq_self_iff]
  constructor
  · intro h hmem
    exact absurd (h 0 hmem) (by decide)
  · intro h x hx
    rw [bne_iff_ne]
    exact fun heq => h (heq ▸ hx)

-- The key is read up to its first NUL; what comes before that and the whole key would have to
-- collide under SHA-1.
theorem accept_over_received_key {buf resp : Bytes} {cap : Nat} {enableDeflate : Bool}
    (hpos : 0 < (parseRequest buf).1) (hok : (parseRequest buf).2.status = 0)
    (hresp : buildResponse cap (parseRequest buf).2.key enableDeflate = some resp) :
    ∃ m k, Http.parse buf = .complete m ∧ findHeader buf m (ascii "sec-websocket-key") = some k ∧
      k.length = 24 ∧ (Accepts resp (Rfc4648.encode (Fips.sha1 (k ++ guid))) ↔
        0 ∉ k ∨ Fips.sha1 (cString k ++ guid) = Fips.sha1 (k ++ guid)) := by
  obtain ⟨m, hparse, hreq⟩ := parseRequest_complete hpos
  rw [hreq] at hok hresp
  obtain ⟨k, hk, hlen, hkey, -⟩ := checkRequest_taken hok
  have hcut : (cString k).length ≤ 24 := by
    have hle := (List.takeWhile_prefix (l := k) (· != 0)).length_le
    exact hlen ▸ hle
  refine ⟨m, k, hparse, hk, hlen, ?_⟩
  rw [hkey] at hresp
  rw [buildResponse_accepts hcut hresp, computeAccept_eq hcut, Rfc4648.encode_injective.eq_iff]
  constructor
  · exact .inr
  · rintro (hnul | heq)
    · rw [(cString_eq_iff k).mpr hnul]
    · exact heq

def upgradeWith (key : Bytes) : Bytes :=
  ascii "GET / HTTP/1.1\r\nUpgrade: websocket\r\nConnection: Upgrade\r\nSec-WebSocket-Version: 13\r\n" ++
    ascii "Sec-WebSocket-Key: " ++ key ++ ascii "\r\n\r\n"

def sampleKey : Bytes := ascii "dGhlIHNhbXBsZSBub25jZQ=="

theorem accept_over_received_key_sample :
    ∃ m k, Http.parse (upgradeWith sampleKey) = .complete m ∧
      findHeader (upgradeWith sampleKey) m (ascii "sec-websocket-key") = some k ∧ k.length = 24 ∧
      (Accepts (headOf responseLine (responseFields sampleKey false))
          (Rfc4648.encode (Fips.sha1 (k ++ guid))) ↔
        0 ∉ k ∨ Fips.sha1 (cString k ++ guid) = Fips.sha1 (k ++ guid)) := by
  have hreq : (parseRequest (upgradeWith sampleKey)).1 = 131 ∧
      (parseRequest (upgradeWith sampleKey)).2.status = 0 ∧
      (parseRequest (upgradeWith sampleKey)).2.key = sampleKey := by decide +kernel
  obtain ⟨hpos, hok, hkey⟩ := hreq
  obtain ⟨hbuild, hlen⟩ := @buildResponse_eq 512 sampleKey (by decide) false
  rw [fits_eq hlen, ← hkey] at hbuild
  have hresult := accept_over_received_key (by rw [hpos]; decide) hok hbuild
  rwa [hkey] at hresult

def upgradeMsg : Msg :=
  { start := { isResponse := false, method := .get, methodRef := some ⟨0, 3⟩, target := some ⟨4, 1⟩
               statusCode := 0, keepAlive := true }
    upgrade := true, keepAlive := true, contentLength := 0, body := ⟨131, 0⟩, headers := ⟨16, 113⟩ }

-- A NUL after four characters: the rest of the key is not hashed.
def cutKey : Bytes := ascii "dGhl" ++ 0 :: ascii "IHNhbXBsZSBub25jZQ="

theorem accept_misses_rest_of_key :
    (parseRequest (upgradeWith cutKey)).1 = 131 ∧ (parseRequest (upgradeWith cutKey)).2.status = 0 ∧
      Http.parse (upgradeWith cutKey) = .complete upgradeMsg ∧
      findHeader (upgradeWith cutKey) upgradeMsg (ascii "sec-websocket-key") = some cutKey ∧
      ∀ resp, buildResponse 512 (parseRequest (upgradeWith cutKey)).2.key false = some resp →
        ¬ Accepts resp (Rfc4648.encode (Fips.sha1 (cutKey ++ guid))) := by
  have hreq : (parseRequest (upgradeWith cutKey)).1 = 131 ∧
      (parseRequest (upgradeWith cutKey)).2.status = 0 ∧
      (parseRequest (upgradeWith cutKey)).2.key = ascii "dGhl" := by decide +kernel
  have hdiffer : computeAccept (ascii "dGhl") ≠ computeAccept cutKey := by decide +kernel
  obtain ⟨hpos, hok, hkey⟩ := hreq
  refine ⟨hpos, hok, by decide +kernel, by decide +kernel, fun resp hresp => ?_⟩
  rw [hkey] at hresp
  rw [buildResponse_accepts (by decide) hresp, ← computeAccept_eq (by decide)]
  exact hdiffer

end Sevent.Ws
