import Sevent.Ws.Steps

-- A client becomes OPEN on a response that answers its key.
namespace Sevent.Ws

open Sevent.Stream (WriteRes)

variable {σ δ : Type}

-- ---- what the last request and the last response were ----

def Event.requestKey : Event → Option Bytes
  | .requestOut key _ _ => some key
  | _ => none

def Event.responseHead : Event → Option Bytes
  | .response buf => some buf
  | _ => none

def lastKey (log : List Event) : Option Bytes := (log.filterMap Event.requestKey).getLast?

def lastResponse (log : List Event) : Option Bytes := (log.filterMap Event.responseHead).getLast?

theorem lastKey_append {log l : List Event} (h : ∀ e ∈ l, e.requestKey = none) :
    lastKey (log ++ l) = lastKey log := by
  rw [lastKey, List.filterMap_append, List.filterMap_eq_nil_iff.mpr h, List.append_nil, lastKey]

theorem lastResponse_append {log l : List Event} (h : ∀ e ∈ l, e.responseHead = none) :
    lastResponse (log ++ l) = lastResponse log := by
  rw [lastResponse, List.filterMap_append, List.filterMap_eq_nil_iff.mpr h, List.append_nil,
    lastResponse]

@[simp] theorem lastKey_request (log : List Event) (key data : Bytes) (res : WriteRes) :
    lastKey (log ++ [.requestOut key data res]) = some key := by
  simp [lastKey, List.filterMap_append, Event.requestKey]

@[simp] theorem lastResponse_response (log : List Event) (buf : Bytes) :
    lastResponse (log ++ [.response buf]) = some buf := by
  simp [lastResponse, List.filterMap_append, Event.responseHead]

-- ---- responses ----

def acceptHeader (buf : Bytes) : Bytes :=
  match Http.parse buf with
  | .complete m => (Http.findHeader buf m (ascii "sec-websocket-accept")).getD []
  | _ => []

-- The response that a client may open on.
def Answers (key buf : Bytes) : Prop :=
  ∃ m, Http.parse buf = .complete m ∧ m.start.isResponse = true ∧ m.start.statusCode = 101 ∧
    Http.findHeader buf m (ascii "sec-websocket-accept") =
      base64Encode (sha1 (key ++ guid)) acceptBase64Len

-- A response that passes the check of the accept value without being an answer: with a longer
-- value, or with another status where no on_http_response looks at it.
def Misleading (env : Env σ δ) (key buf : Bytes) : Prop :=
  verifyAccept key (parseResponse buf).2.accept = true ∧ (parseResponse buf).2.redirects = false ∧
    (28 < (acceptHeader buf).length ∨
      env.onHttpResponse.isNone = true ∧ (parseResponse buf).2.statusCode ≠ 101)

instance decidableMisleading (env : Env σ δ) (key buf : Bytes) : Decidable (Misleading env key buf) :=
  inferInstanceAs (Decidable (_ ∧ _ ∧ _))

theorem genKey_length (raw : Fin 16 → Byte) : (genKey raw).length = 24 := by
  simp only [genKey]
  cases h : base64Encode (List.ofFn raw) keyBase64Len with
  | none => simp [base64Encode, keyBase64Len] at h
  | some out =>
      rw [Option.getD_some, base64Encode_length h, List.length_ofFn]

theorem computeAccept_genKey (raw : Fin 16 → Byte) :
    base64Encode (sha1 (genKey raw ++ guid)) acceptBase64Len = some (computeAccept (genKey raw)) ∧
      (computeAccept (genKey raw)).length = 28 := by
  have hlen : ¬ (genKey raw ++ guid).length ≥ 256 := by
    rw [List.length_append, genKey_length]
    decide
  cases h : base64Encode (sha1 (genKey raw ++ guid)) acceptBase64Len with
  | none => simp [base64Encode, sha1_length, acceptBase64Len] at h
  | some out =>
      have hout := base64Encode_length h
      rw [sha1_length] at hout
      simp only [computeAccept, if_neg hlen, h, Option.getD_some]
      exact ⟨trivial, hout⟩

theorem cString_eq_of_length {b : Bytes} (h : b.length ≤ (cString b).length) : cString b = b :=
  (List.takeWhile_sublist _).eq_of_length_le h

-- What passes the checks and does not mislead is an answer.
theorem answers_of_accepts {env : Env σ δ} {raw : Fin 16 → Byte} {buf : Bytes}
    (ha : Conn.Accepts env (genKey raw) buf) (hm : ¬ Misleading env (genKey raw) buf) :
    Answers (genKey raw) buf := by
  obtain ⟨hret, hred, hver, hst⟩ := ha
  obtain ⟨henc, hlen⟩ := computeAccept_genKey raw
  have hshort : (acceptHeader buf).length ≤ 28 := by
    by_contra h
    exact hm ⟨hver, hred, .inl (by omega)⟩
  have hstatus : (parseResponse buf).2.statusCode = 101 := by
    by_contra h
    cases hcb : env.onHttpResponse with
    | none => exact hm ⟨hver, hred, .inr ⟨by simp [hcb], h⟩⟩
    | some cb => exact h (hst (by simp [hcb]))
  have hver : computeAccept (genKey raw) = (parseResponse buf).2.accept := by
    simpa [verifyAccept] using hver
  unfold parseResponse at hver hstatus
  split at hstatus
  · cases hstatus
  · rename_i h14
    rw [if_neg h14] at hver
    cases hparse : Http.parse buf with
    | error => simp [hparse, HandshakeResponse.zero] at hstatus
    | more => simp [hparse, HandshakeResponse.zero] at hstatus
    | complete m =>
        simp only [hparse] at hver hstatus
        cases hresp : m.start.isResponse with
        | false => simp [hresp, HandshakeResponse.zero] at hstatus
        | true =>
            simp only [hresp, Bool.not_true, Bool.false_eq_true, if_false, apply_ite Prod.snd,
              ite_self] at hver hstatus
            simp only [acceptHeader, hparse] at hshort
            refine ⟨m, hparse, hresp, hstatus, ?_⟩
            rw [henc]
            cases hfind : Http.findHeader buf m (ascii "sec-websocket-accept") with
            | none =>
                rw [hfind] at hver
                rw [hver] at hlen
                cases hlen
            | some v =>
                rw [hfind, Option.getD_some] at hver hshort
                have htake : v.take (acceptBase64Len - 1) = v := List.take_of_length_le hshort
                rw [copyString, htake] at hver
                have hfull : cString v = v := cString_eq_of_length (by
                  rw [← hver, hlen]
                  exact hshort)
                rw [hver, hfull]

-- ---- runs ----

def Event.opens : Event → Bool
  | .state .opened => true
  | .onOpen => true
  | _ => false

-- The response just parsed answers the key of the latest request.
def Answered (log : List Event) : Prop :=
  ∃ buf key, lastResponse log = some buf ∧ lastKey log = some key ∧ Answers key buf

def OpensAnswered (log : List Event) : Prop :=
  Trace.AtEach (fun past e => e.opens = true → Answered past) log

-- A response has come in that misleads.
def Misled (env : Env σ δ) : List Event → Prop :=
  Trace.Somewhere fun past e =>
    ∃ buf ∈ e.responseHead, ∃ key ∈ lastKey past, Misleading env key buf

instance decidableMisled (env : Env σ δ) (log : List Event) : Decidable (Misled env log) :=
  inferInstanceAs (Decidable (Trace.Somewhere _ log))

theorem plain_requestKey {e : Event} (he : e.plain = true) : e.requestKey = none := by
  cases e <;> simp_all [Event.plain, Event.requestKey]

theorem plain_responseHead {e : Event} (he : e.plain = true) : e.responseHead = none := by
  cases e <;> simp_all [Event.plain, Event.responseHead]

theorem Answered.append {log : List Event} (h : Answered log) (l : List Event)
    (hk : ∀ e ∈ l, e.requestKey = none) (hr : ∀ e ∈ l, e.responseHead = none) :
    Answered (log ++ l) := by
  obtain ⟨buf, key, hbuf, hkey, ha⟩ := h
  exact ⟨buf, key, (lastResponse_append hr).trans hbuf, (lastKey_append hk).trans hkey, ha⟩

namespace Conn

variable {env : Env σ δ}

-- In HANDSHAKE the client holds the key of its latest request.
def KeyKept (c : Conn σ δ) : Prop :=
  c.state = .handshake → ∃ raw, c.secWsKey = genKey raw ∧ lastKey c.log = some c.secWsKey

theorem KeyKept.of_log {c c' : Conn σ δ} (h : KeyKept c) (l : List Event)
    (hs : c'.state = .handshake → c.state = .handshake) (hkey : c'.secWsKey = c.secWsKey)
    (hlog : c'.log = c.log ++ l) (hl : ∀ e ∈ l, e.requestKey = none) : KeyKept c' := by
  intro hstate
  obtain ⟨raw, hraw, hlast⟩ := h (hs hstate)
  refine ⟨raw, hkey.trans hraw, ?_⟩
  rw [hlog, lastKey_append hl, hlast, hkey]

theorem Move.keyKept {c c' : Conn σ δ} (hm : Move env c c') (h : KeyKept c) : KeyKept c' := by
  cases hm with
  | note e he => exact h.of_log [e] id rfl rfl (by simpa using plain_requestKey he)
  | seed seed => exact h.of_log [] id rfl (by simp) (by simp)
  | compressor df d hd => exact h.of_log [] id rfl (by simp) (by simp)
  | frame opcode data res hs ho =>
      exact h.of_log [.frameOut opcode data res] id rfl rfl (by simp [Event.requestKey])
  | ended n hg =>
      intro hs
      rw [notifyNested_eq, shut_eq] at hs
      cases hs
  | leave ho => exact fun hs => by cases hs
  | close =>
      intro hs
      rw [close_eq] at hs
      cases hs

theorem Act.keyKept (hclient : env.isClient = true) {c c' : Conn σ δ} (hw : Wf env c)
    (ha : Act env c c') (h : KeyKept c) : KeyKept c' := by
  cases ha with
  | move hm => exact hm.keyKept h
  | quiet hs hr hf => exact h.of_log [] (hs.state ▸ id) hs.key (by simp [hs.log]) (by simp)
  | deliver e he hr =>
      refine h.of_log [e] id rfl rfl ?_
      cases e <;> simp_all [Event.delivery, Event.requestKey]
  | refusal data res hs hf => exact h.of_log _ id rfl rfl (by simp [Event.requestKey])
  | switching data res hs hf => exact h.of_log _ id rfl rfl (by simp [Event.requestKey])
  | opened ho => exact fun hs => by cases hs
  | timer ms ok hg => exact h.of_log _ id rfl rfl (by simp [Event.requestKey])
  | refused ho hs => exact fun hs => by cases hs
  | refusedError err hr => exact h.of_log _ id rfl rfl (by simp [Event.requestKey])
  | accepted hs hc => cases hclient.symm.trans hc
  | connected key hs =>
      intro hstate
      cases (hw.opening hs).1.symm.trans hstate
  | requested raw data res hs => exact fun _ => ⟨raw, rfl, lastKey_request _ _ _ _⟩
  | response hs => exact h.of_log _ id rfl rfl (by simp [Event.requestKey])
  | redirected msg host port path count ok hg hs => exact fun hs => by cases hs
  | idle => exact h.of_log [] id rfl (by simp) (by simp)

-- What leads to OPEN is an answer.
theorem Openable.answered (hclient : env.isClient = true) {c : Conn σ δ} (hk : KeyKept c)
    (ho : Openable env c) : Answered c.log ∨ Misled env c.log := by
  obtain ⟨hstate, buf, since, ⟨past, hlog⟩, hplain, hacc⟩ := ho.client hclient
  obtain ⟨raw, hraw, hlast⟩ := hk hstate
  have hkeys : ∀ e ∈ since, e.requestKey = none := fun e he => plain_requestKey (hplain e he)
  have hheads : ∀ e ∈ since, e.responseHead = none := fun e he => plain_responseHead (hplain e he)
  have hsplit : c.log = past ++ [.response buf] ++ since := by simp [hlog]
  have hkey : lastKey past = some (genKey raw) := by
    rw [← hraw, ← hlast, hsplit, lastKey_append hkeys, lastKey_append (by simp [Event.requestKey])]
  rw [hraw] at hacc
  by_cases hm : Misleading env (genKey raw) buf
  · exact .inr ⟨past, .response buf, ⟨since, hsplit.symm⟩, buf, rfl, genKey raw, hkey, hm⟩
  · refine .inl ⟨buf, genKey raw, ?_, ?_, answers_of_accepts hacc hm⟩
    · rw [hsplit, lastResponse_append hheads, lastResponse_response]
    · rw [hlast, hraw]

def ClientOrdered (env : Env σ δ) (c : Conn σ δ) : Prop :=
  KeyKept c ∧ Trace.AtEach (fun past e => e.opens = true → Answered past ∨ Misled env past) c.log

theorem Act.clientOrdered (hclient : env.isClient = true) {c c' : Conn σ δ} (hw : Wf env c)
    (ha : Act env c c') (h : ClientOrdered env c) : ClientOrdered env c' := by
  refine ⟨ha.keyKept hclient hw h.1, (ha.grown hw).atEach h.2 ?_⟩
  rintro past e - hreason hopens
  cases hreason with
  | opened ho => exact ho.answered hclient h.1
  | onOpen ho =>
      refine (ho.answered hclient h.1).imp (fun ha => ?_) (Trace.Somewhere.mono (List.prefix_append _ _))
      exact ha.append _ (by simp [Event.requestKey]) (by simp [Event.responseHead])
  | routine hr =>
      cases e with
      | state s => cases s <;> simp_all [Event.routine, Event.opens, Event.plain]
      | _ => simp_all [Event.routine, Event.opens, Event.plain]
  | deliver he hr => cases e <;> simp_all [Event.delivery, Event.opens]
  | notice n hg => cases n <;> cases hopens
  | _ => cases hopens

-- In every run of a client, across redirects, unless a response misleads it.
theorem opens_on_answer (env : Env σ δ) (hclient : env.isClient = true) (c : Conn σ δ)
    (hentry : Entry env c) (inputs : List Input) (hm : ¬ Misled env (run env c inputs).log) :
    OpensAnswered (run env c inputs).log := by
  obtain ⟨c₀, hw₀, hlog, hstate, hacts⟩ := hentry.acts
  have h₀ : ClientOrdered env c₀ := by
    refine ⟨fun hs => ?_, ?_⟩
    · cases hstate.symm.trans hs
    · rw [hlog]
      exact Trace.atEach_nil _
  have hact : ∀ c c' : Conn σ δ, Wf env c → Act env c c' → ClientOrdered env c →
      ClientOrdered env c' := fun _ _ hw ha h => Act.clientOrdered hclient hw ha h
  have hframe : ∀ c : Conn σ δ, Wf env c → ClientOrdered env c →
      ClientOrdered env (c.emit .frameData) := by
    rintro c - ⟨hk, h⟩
    exact ⟨hk.of_log _ id rfl rfl (by simp [Event.requestKey]), h.append _ (by simp [Event.opens])⟩
  have hc := Acts.keeps hact hw₀ hacts h₀
  refine (run_keeps hact hframe inputs (Acts.wf hacts hw₀) hc).2.2.imp fun past e hp h ho => ?_
  exact (h ho).resolve_right fun h =>
    hm (Trace.Somewhere.mono ((List.prefix_append _ _).trans hp) h)

def acceptLine : Bytes := ascii "Sec-WebSocket-Accept: s3pPLMBiTxaQ9kYGzzhZRbK+xOo=\r\n\r\n"

-- A redirect to another path of the same server, then the answer.
def redirectedOpen : List Input :=
  [.streamOpened, .data (ascii "HTTP/1.1 302 Found\r\nLocation: /b\r\n\r\n"), .streamOpened,
    .data (ascii "HTTP/1.1 101 Switching Protocols\r\n" ++ acceptLine)]

theorem opens_on_answer_redirected :
    Opened (run plainClient (start (ascii "h") 80 (ascii "/a") 1) redirectedOpen).log ∧
      OpensAnswered (run plainClient (start (ascii "h") 80 (ascii "/a") 1) redirectedOpen).log := by
  obtain ⟨hopened, hm⟩ :
      Opened (run plainClient (start (ascii "h") 80 (ascii "/a") 1) redirectedOpen).log ∧
      ¬ Misled plainClient (run plainClient (start (ascii "h") 80 (ascii "/a") 1) redirectedOpen).log := by
    decide +kernel
  exact ⟨hopened, opens_on_answer plainClient rfl _ (.start (ascii "h") 80 (ascii "/a") 1) _ hm⟩

-- No on_http_response: a 200 with the right accept value opens the connection.
def openedBy200 : List Input :=
  [.streamOpened, .data (ascii "HTTP/1.1 200 OK\r\n" ++ acceptLine)]

theorem opens_on_200 :
    ¬ OpensAnswered (run plainClient (start (ascii "h") 80 (ascii "/a") 1) openedBy200).log := by
  intro h
  obtain ⟨hlen, hopens, hlast⟩ :
      3 < (run plainClient (start (ascii "h") 80 (ascii "/a") 1) openedBy200).log.length ∧
      (∀ e ∈ (run plainClient (start (ascii "h") 80 (ascii "/a") 1) openedBy200).log[3]?,
        e.opens = true) ∧
      lastResponse ((run plainClient (start (ascii "h") 80 (ascii "/a") 1) openedBy200).log.take 3)
        = some (ascii "HTTP/1.1 200 OK\r\n" ++ acceptLine) := by
    decide +kernel
  obtain ⟨buf, key, hbuf, -, m, hparse, -, hstatus, -⟩ :=
    (Trace.atEach_iff_get _ _).mp h ⟨3, hlen⟩ (hopens _ (List.getElem?_eq_getElem hlen))
  have h200 : (match Http.parse (ascii "HTTP/1.1 200 OK\r\n" ++ acceptLine) with
      | .complete m => m.start.statusCode
      | _ => 0) = 200 := by decide
  obtain rfl : ascii "HTTP/1.1 200 OK\r\n" ++ acceptLine = buf := Option.some.inj (hlast.symm.trans hbuf)
  rw [hparse] at h200
  simp [hstatus] at h200

end Conn

end Sevent.Ws
