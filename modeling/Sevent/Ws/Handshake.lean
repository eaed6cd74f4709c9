import Sevent.Http.Parse
import Sevent.Ws.Digest

-- The HTTP upgrade of both sides (ws_handshake.c).
namespace Sevent.Ws

open Sevent.Http (Msg ParseResult findHdrEnd memchr ciEq isBlank isDigit rtrim findHeader)

def guid : Bytes := ascii "258EAFA5-E914-47DA-95CA-C5AB0DC85B11"

-- What the C string functions see of a byte array.
def cString (b : Bytes) : Bytes := b.takeWhile (· != 0)

-- memcpy into an array of `cap` bytes, ended by a NUL.
def copyString (cap : Nat) (v : Bytes) : Bytes := cString (v.take (cap - 1))

def acceptBase64Len : Nat := 29
def keyBase64Len : Nat := 25

def pmd : Bytes := ascii "permessage-deflate"
def serverNoCtx : Bytes := ascii "server_no_context_takeover"
def clientNoCtx : Bytes := ascii "client_no_context_takeover"
def serverMaxWb : Bytes := ascii "server_max_window_bits"
def clientMaxWb : Bytes := ascii "client_max_window_bits"

def computeAccept (key : Bytes) : Bytes :=
  let concat := key ++ guid
  if concat.length ≥ 256 then []
  else (base64Encode (sha1 concat) acceptBase64Len).getD []

-- The key of a client, from 16 random bytes.
def genKey (raw : Fin 16 → Byte) : Bytes := (base64Encode (List.ofFn raw) keyBase64Len).getD []

def verifyAccept (key accept : Bytes) : Bool := computeAccept key == accept

structure HandshakeResponse where
  statusCode : Nat
  accept : Bytes
  protocol : Bytes
  location : Bytes
  extensions : Bytes
  deriving DecidableEq, Repr

-- A 3xx response that is followed (the upper bound is the source's).
def HandshakeResponse.redirects (resp : HandshakeResponse) : Bool :=
  300 ≤ resp.statusCode && resp.statusCode < 399 && resp.location ≠ []

-- memset(resp, 0)
def HandshakeResponse.zero : HandshakeResponse := ⟨0, [], [], [], []⟩

-- The digits after the second blank of the head: it is the reason phrase that is looked at.
def headOnlyStatusOk (head : Bytes) : Bool :=
  match memchr 32 head with
  | none => false
  | some sp =>
      match memchr 32 (head.drop (sp + 1)) with
      | none => false
      | some sp2 =>
          let st := head.drop (sp + 1 + sp2 + 1)
          let digits := (st.take 5).takeWhile isDigit
          digits ≠ [] &&
            (match st.drop digits.length with
              | [] => true
              | b :: _ => b == 32 || b == 13)

-- The header block alone, while the body is incomplete. The result keeps its zeros.
def parseHeadOnly (buf : Bytes) : Int :=
  match findHdrEnd buf with
  | none => 0
  | some hdrEnd =>
      if hdrEnd ≥ 4096 then -1
      else if headOnlyStatusOk (buf.take hdrEnd) then (hdrEnd : Int) + 4 else -1

def parseResponse (buf : Bytes) : Int × HandshakeResponse :=
  if buf.length < 14 then (0, .zero)
  else
    match Http.parse buf with
    | .error => (-1, .zero)
    | .more => (parseHeadOnly buf, .zero)
    | .complete m =>
        if !m.start.isResponse then (-1, .zero)
        else
          let field := fun (name : String) (cap : Nat) =>
            copyString cap ((findHeader buf m (ascii name)).getD [])
          let resp : HandshakeResponse :=
            { statusCode := m.start.statusCode
              accept := field "sec-websocket-accept" acceptBase64Len
              protocol := field "sec-websocket-protocol" 64
              location := field "location" 256
              extensions := field "sec-websocket-extensions" 256 }
          if resp.statusCode = 101 ∧ resp.accept = [] then (-1, resp) else (m.body.off, resp)

def tokenEq (v token : Bytes) : Bool := ciEq v token

def tokenListHasLoop (token : Bytes) : Nat → Bytes → Bool
  | 0, _ => false
  | fuel + 1, p =>
      if p = [] then false
      else
        let p := p.dropWhile isBlank
        let elem := p.takeWhile (· != 44)
        if tokenEq (rtrim elem) token then true
        else tokenListHasLoop token fuel ((p.drop elem.length).drop 1)

def tokenListHas (v token : Bytes) : Bool := tokenListHasLoop token v.length v

-- Elements and parameters alike are compared with the token.
def extTokenHasLoop (token : Bytes) : Nat → Bytes → Bool
  | 0, _ => false
  | fuel + 1, p =>
      if p = [] then false
      else
        let p := p.dropWhile fun b => isBlank b || b == 44
        let elem := p.takeWhile fun b => b != 59 && b != 44
        if tokenEq (rtrim elem) token then true
        else
          let p := p.drop elem.length
          extTokenHasLoop token fuel (if p.head? = some 59 then p.drop 1 else p)

def extTokenHas (v token : Bytes) : Bool := extTokenHasLoop token (v.length + 1) v

structure HandshakeRequest where
  status : Int
  key : Bytes
  deflateOffered : Bool
  clientNoContextTakeover : Bool
  deriving DecidableEq, Repr

def HandshakeRequest.failed (status : Int) (key : Bytes) : HandshakeRequest :=
  ⟨status, key, false, false⟩

-- The checks of a complete request, in the order of the source.
def checkRequest (buf : Bytes) (m : Msg) : HandshakeRequest :=
  if m.start.method ≠ .get then .failed 400 []
  else if !(findHeader buf m (ascii "upgrade")).any (tokenEq · (ascii "websocket")) then
    .failed 400 []
  else if !(findHeader buf m (ascii "connection")).any (tokenListHas · (ascii "upgrade")) then
    .failed 400 []
  else
    match findHeader buf m (ascii "sec-websocket-key") with
    | none => .failed 400 []
    | some v =>
        if v.length ≠ keyBase64Len - 1 then .failed 400 []
        else
          let key := cString v
          if !(findHeader buf m (ascii "sec-websocket-version")).any (tokenEq · (ascii "13")) then
            .failed 426 key
          else
            let offered :=
              (findHeader buf m (ascii "sec-websocket-extensions")).any (extTokenHas · pmd)
            let nct := offered &&
              (findHeader buf m (ascii "sec-websocket-extensions")).any (extTokenHas · clientNoCtx)
            { status := 0, key := key, deflateOffered := offered, clientNoContextTakeover := nct }

def parseRequest (buf : Bytes) : Int × HandshakeRequest :=
  if buf.length < 16 then (0, .failed (-1) [])
  else
    match Http.parse buf with
    | .error => (-1, .failed (-1) [])
    | .more => (0, .failed (-1) [])
    | .complete m =>
        if m.start.isResponse then (-1, .failed (-1) []) else (m.consumed, checkRequest buf m)

-- snprintf and append_str need room for a NUL.
def fits (cap : Nat) (s : Bytes) : Option Bytes := if s.length ≥ cap then none else some s

def buildHttpRequest (cap : Nat) (method target host : Bytes) (port : Nat) (extra : Bytes) :
    Option Bytes :=
  fits cap (method ++ ascii " " ++ target ++ ascii " HTTP/1.1\r\nHost: " ++ host ++ ascii ":" ++
    ascii (toString port) ++ ascii "\r\n" ++ extra ++ ascii "\r\n")

-- A NULL text is printed as (null).
def buildHttpResponse (cap : Nat) (status : Nat) (text : Option Bytes) (extra : Bytes) :
    Option Bytes := do
  let head ← fits 64 (ascii "HTTP/1.1 " ++ ascii (toString status) ++ ascii " " ++
    text.getD (ascii "(null)") ++ ascii "\r\n")
  fits cap (head ++ extra ++ ascii "\r\n")

structure DeflateParams where
  serverNoContextTakeover : Bool
  clientNoContextTakeover : Bool
  serverMaxWindowBits : Nat
  clientMaxWindowBits : Nat
  compressionLevel : Nat
  deriving DecidableEq, Repr

def DeflateParams.zero : DeflateParams := ⟨false, false, 0, 0, 0⟩

def extensionOffer (p : DeflateParams) : Bytes :=
  pmd ++ ascii "; " ++ clientMaxWb ++
    (if p.clientMaxWindowBits ≠ 0 then ascii "=" ++ ascii (toString p.clientMaxWindowBits) else []) ++
    (if p.serverMaxWindowBits ≠ 0 then
      ascii "; " ++ serverMaxWb ++ ascii "=" ++ ascii (toString p.serverMaxWindowBits) else []) ++
    (if p.clientNoContextTakeover then ascii "; " ++ clientNoCtx else []) ++
    (if p.serverNoContextTakeover then ascii "; " ++ serverNoCtx else [])

-- The offer is made iff `offer` is given.
def buildRequest (cap : Nat) (host : Bytes) (port : Nat) (path key subProtocol : Bytes)
    (offer : Option DeflateParams) : Option Bytes := do
  let extra ← fits 512 (ascii "Upgrade: websocket\r\nConnection: Upgrade\r\nSec-WebSocket-Key: " ++ key ++
    ascii "\r\nSec-WebSocket-Version: 13\r\n")
  let extra ←
    if subProtocol ≠ [] then
      fits 512 (extra ++ ascii "Sec-WebSocket-Protocol: " ++ subProtocol ++ ascii "\r\n")
    else some extra
  let extra ←
    match offer with
    | none => some extra
    | some p => do
        let ext ← fits 192 (extensionOffer p)
        fits 512 (extra ++ ascii "Sec-WebSocket-Extensions: " ++ ext ++ ascii "\r\n")
  buildHttpRequest cap (ascii "GET") path host port extra

def buildResponse (cap : Nat) (key : Bytes) (enableDeflate : Bool) : Option Bytes := do
  let extra ← fits 256 (ascii "Upgrade: websocket\r\nConnection: Upgrade\r\nSec-WebSocket-Accept: " ++
    computeAccept key ++ ascii "\r\n")
  let extra ←
    if enableDeflate then fits 256 (extra ++ ascii "Sec-WebSocket-Extensions: " ++ pmd ++ ascii "\r\n")
    else some extra
  buildHttpResponse cap 101 (some (ascii "Switching Protocols")) extra

-- ---- a request that is taken ----

theorem parseRequest_complete {buf : Bytes} (h : 0 < (parseRequest buf).1) :
    ∃ m, Http.parse buf = .complete m ∧ parseRequest buf = ((m.consumed : Int), checkRequest buf m) := by
  unfold parseRequest at h ⊢
  split at h
  · cases h
  rename_i hlong
  rw [if_neg hlong]
  split at h
  · cases h
  · cases h
  · rename_i m hparse
    split at h
    · cases h
    · rename_i hresp
      exact ⟨m, hparse, if_neg hresp⟩

-- It passes the checks with a key of 24 bytes.
theorem checkRequest_taken {buf : Bytes} {m : Http.Msg} (h : (checkRequest buf m).status = 0) :
    ∃ v, findHeader buf m (ascii "sec-websocket-key") = some v ∧ v.length = 24 ∧
      (checkRequest buf m).key = cString v ∧
      (checkRequest buf m).deflateOffered =
        (findHeader buf m (ascii "sec-websocket-extensions")).any (extTokenHas · pmd) ∧
      (checkRequest buf m).clientNoContextTakeover = ((checkRequest buf m).deflateOffered &&
        (findHeader buf m (ascii "sec-websocket-extensions")).any (extTokenHas · clientNoCtx)) := by
  unfold checkRequest at h ⊢
  split at h
  · cases h
  rename_i hmethod
  split at h
  · cases h
  rename_i hupgrade
  split at h
  · cases h
  rename_i hconnection
  rw [if_neg hmethod, if_neg hupgrade, if_neg hconnection]
  split at h
  · cases h
  rename_i v hv
  split at h
  · cases h
  rename_i hlen
  dsimp only at h
  split at h
  · cases h
  rename_i hversion
  refine ⟨v, hv, by simpa [keyBase64Len] using hlen, ?_⟩
  dsimp only
  rw [if_neg hlen, if_neg hversion]
  exact ⟨rfl, rfl, rfl⟩

end Sevent.Ws
