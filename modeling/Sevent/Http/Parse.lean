import Mathlib.Data.List.DropRight
import Sevent.Basic

-- The HTTP syntax layer (http_parse.c). Pointers into the input are offsets and lengths.
namespace Sevent.Http

def sizeMax : Nat := 18446744073709551615

def crlf2 : Bytes := [13, 10, 13, 10]

def isBlank (b : Byte) : Bool := b == 32 || b == 9

def isDigit (b : Byte) : Bool := 48 ≤ b && b ≤ 57

def toLower (b : Byte) : Byte := if 65 ≤ b && b ≤ 90 then b + 32 else b

def ciEq (a b : Bytes) : Bool := a.map toLower == b.map toLower

def memchr (c : Byte) (buf : Bytes) : Option Nat := buf.findIdx? (· == c)

-- Remove the spaces and tabs at both ends.
def ltrim (v : Bytes) : Bytes := v.dropWhile isBlank
def rtrim (v : Bytes) : Bytes := v.rdropWhile isBlank
def trim (v : Bytes) : Bytes := rtrim (ltrim v)

-- The first CRLFCRLF.
def findHdrEnd : Bytes → Option Nat
  | [] => none
  | b :: rest => if crlf2.isPrefixOf (b :: rest) then some 0 else (findHdrEnd rest).map (· + 1)

def stripCr (line : Bytes) : Bytes := if line.getLast? = some 13 then line.dropLast else line

-- `p = q < end ? q + 1 : q` resumes after the trimmed element, not after its comma: blanks
-- before the comma are looked at again as an element of their own.
def hdrHasTokenLoop (token : Bytes) : Nat → Bytes → Bool
  | 0, _ => false
  | fuel + 1, rest =>
      if rest = [] then false
      else
        let seg := rest.takeWhile (· != 44)
        let elem := trim seg
        let q := if elem = [] then seg.length else (rtrim seg).length
        if ciEq elem token then true else hdrHasTokenLoop token fuel (rest.drop (q + 1))

def hdrHasToken (val token : Bytes) : Bool := hdrHasTokenLoop token val.length val

-- The lines of a header block, each ended by LF; an unterminated rest is not a line.
def headerLinesAux (line : Bytes) : Bytes → List Bytes
  | [] => []
  | b :: rest =>
      if b = 10 then line.reverse :: headerLinesAux [] rest else headerLinesAux (b :: line) rest

def headerLines (block : Bytes) : List Bytes := (headerLinesAux [] block).map stripCr

-- A line without a colon is no field.
def headerField (line : Bytes) : Option (Bytes × Bytes) :=
  match memchr 58 line with
  | none => none
  | some i => some (line.take i, trim (line.drop (i + 1)))

def findHeaderNthIn (name : Bytes) : List Bytes → Nat → Option Bytes
  | [], _ => none
  | line :: rest, nth =>
      match headerField line with
      | none => findHeaderNthIn name rest nth
      | some (n, v) =>
          if ciEq n name then
            match nth with
            | 0 => some v
            | k + 1 => findHeaderNthIn name rest k
          else findHeaderNthIn name rest nth

def findHeaderNth (block name : Bytes) (nth : Nat) : Option Bytes :=
  findHeaderNthIn name (headerLines block) nth

def findHeaderIn (block name : Bytes) : Option Bytes := findHeaderNth block name 0

inductive Method where
  | unknown | get | head | post | put | delete | options | patch | connect | trace
  deriving DecidableEq, Repr

def parseMethod (p : Bytes) : Method :=
  if p = ascii "GET" then .get
  else if p = ascii "HEAD" then .head
  else if p = ascii "POST" then .post
  else if p = ascii "PUT" then .put
  else if p = ascii "DELETE" then .delete
  else if p = ascii "OPTIONS" then .options
  else if p = ascii "PATCH" then .patch
  else if p = ascii "CONNECT" then .connect
  else if p = ascii "TRACE" then .trace
  else .unknown

structure Slice where
  off : Nat
  len : Nat
  deriving DecidableEq, Repr

def Slice.of (s : Slice) (buf : Bytes) : Bytes := (buf.drop s.off).take s.len

-- The first line. `methodRef` and `target` are NULL in a response.
structure StartLine where
  isResponse : Bool
  method : Method
  methodRef : Option Slice
  target : Option Slice
  statusCode : Nat
  keepAlive : Bool
  deriving DecidableEq, Repr

def decimalValue (v : Bytes) : Nat := v.foldl (fun n b => n * 10 + (b.toNat - 48)) 0

def parseStatusLine (line : Bytes) : Option StartLine :=
  match memchr 32 line with
  | none => none
  | some sp1 =>
      let after := line.drop (sp1 + 1)
      let st := after.take ((memchr 32 after).getD after.length)
      if st.length = 0 ∨ st.length > 3 then none
      else if !st.all isDigit then none
      else
        let ver := (line.take sp1).drop 5
        some
          { isResponse := true, method := .unknown, methodRef := none, target := none
            statusCode := decimalValue st
            keepAlive :=
              match ver with
              | [49, 46, minor] => 49 ≤ minor && minor < 128
              | _ => false }

def parseRequestLine (line : Bytes) : Option StartLine :=
  match memchr 32 line with
  | none => none
  | some sp1 =>
      let after := line.drop (sp1 + 1)
      match memchr 32 after with
      | none => none
      | some tlen =>
          if sp1 = 0 then none
          else if tlen = 0 then none
          else
            some
              { isResponse := false, method := parseMethod (line.take sp1)
                methodRef := some ⟨0, sp1⟩, target := some ⟨sp1 + 1, tlen⟩, statusCode := 0
                keepAlive := after.drop (tlen + 1) = ascii "HTTP/1.1" }

def parseStartLine (line : Bytes) : Option StartLine :=
  if (ascii "HTTP/").isPrefixOf line then parseStatusLine line else parseRequestLine line

-- The digits of a Content-Length; an empty value counts as 0.
def parseContentLength : Bytes → Nat → Option Nat
  | [], cl => some cl
  | b :: rest, cl =>
      if !isDigit b then none
      else
        let digit := b.toNat - 48
        if cl > (sizeMax - digit) / 10 then none else parseContentLength rest (cl * 10 + digit)

structure Fields where
  upgrade : Bool
  keepAlive : Bool
  contentLength : Nat
  deriving DecidableEq, Repr

def contentLength (block : Bytes) : Option Nat :=
  match findHeaderIn block (ascii "content-length") with
  | none => some 0
  | some v =>
      match parseContentLength v 0 with
      | none => none
      | some cl =>
          match findHeaderNth block (ascii "content-length") 1 with
          | none => some cl
          | some v2 =>
              match parseContentLength v2 0 with
              | none => none
              | some cl2 => if cl2 ≠ cl then none else some cl

-- The fields read while framing; a chunked body is refused.
def parseFields (block : Bytes) (keepAlive : Bool) : Option Fields :=
  let conn := findHeaderIn block (ascii "connection")
  let connUpgrade := conn.any (hdrHasToken · (ascii "upgrade"))
  let connClose := conn.any (hdrHasToken · (ascii "close"))
  match contentLength block with
  | none => none
  | some cl =>
      if (findHeaderIn block (ascii "transfer-encoding")).any (hdrHasToken · (ascii "chunked")) then
        none
      else
        some
          { upgrade := connUpgrade && (findHeaderIn block (ascii "upgrade")).isSome
            keepAlive := keepAlive && !connClose
            contentLength := cl }

structure Msg where
  start : StartLine
  upgrade : Bool
  keepAlive : Bool
  contentLength : Nat
  body : Slice
  headers : Slice
  deriving DecidableEq, Repr

inductive ParseResult where
  | error
  | more
  | complete (m : Msg)
  deriving DecidableEq, Repr

-- The header block of a buffer whose CRLFCRLF is at `hdrEnd` and whose first LF is at `lineEnd`.
def headerSlice (hdrEnd lineEnd : Nat) : Slice := ⟨lineEnd + 1, hdrEnd + 2 - (lineEnd + 1)⟩

def parse (buf : Bytes) : ParseResult :=
  match findHdrEnd buf with
  | none => .more
  | some hdrEnd =>
      match memchr 10 buf with
      | none => .more
      | some lineEnd =>
          match parseStartLine (stripCr (buf.take lineEnd)) with
          | none => .error
          | some start =>
              let headers := headerSlice hdrEnd lineEnd
              match parseFields (headers.of buf) start.keepAlive with
              | none => .error
              | some f =>
                  if buf.length - (hdrEnd + 4) < f.contentLength then .more
                  else
                    .complete
                      { start := start, upgrade := f.upgrade, keepAlive := f.keepAlive
                        contentLength := f.contentLength
                        body := ⟨hdrEnd + 4, f.contentLength⟩, headers := headers }

-- The bytes a complete message occupies.
def Msg.consumed (m : Msg) : Nat := m.body.off + m.body.len

def findHeader (buf : Bytes) (m : Msg) (name : Bytes) : Option Bytes :=
  findHeaderIn (m.headers.of buf) name

end Sevent.Http
