import Sevent.Trace
import Sevent.Tls.Conn

namespace Sevent.Tls

open Sevent.Trace

def Event.host? : Event → Option Bytes
  | .opened host => some host
  | _ => none

-- The host of the latest open call that returned 0.
def lastOpened (log : List Event) : Option Bytes := (log.filterMap Event.host?).getLast?

-- A client handshake is given the configured name, or else the host it connects to.
def VerifiesPeer (tlsHostname : Option Bytes) (past : List Event) (e : Event) : Prop :=
  ∀ name, e = .sslNew false name →
    ∃ host, lastOpened past = some host ∧ name = some (tlsHostname.getD host)

-- The name the object keeps is configured, still free, or the host this open call asks for.
def Step.Safe (tlsHostname : Option Bytes) (s : Step) (t : Conn) : Prop :=
  match s with
  | .call (.openConn host _ _ _ _) =>
      tlsHostname.isSome ∨ t.hostname = none ∨ t.hostname = some host
  | _ => True

def SafeRun (tlsHostname : Option Bytes) : List Step → Conn → Prop
  | [], _ => True
  | s :: rest, t => s.Safe tlsHostname t ∧ SafeRun tlsHostname rest (s.run t)

-- While TCP connects, the round belongs to the latest open or accept call.
structure Named (tlsHostname : Option Bytes) (t : Conn) : Prop where
  config : ∀ name, tlsHostname = some name → t.hostname = some name
  connecting : t.tcp = .opening → t.established = true ∧ t.ssl = false
  client : t.tcp = .opening → t.isServer = false →
    ∃ host, lastOpened t.log = some host ∧ t.hostname = some (tlsHostname.getD host)
  engine : t.ssl = true → t.established = true
  verified : AtEach (VerifiesPeer tlsHostname) t.log

theorem lastOpened_concat (log : List Event) (e : Event) :
    lastOpened (log ++ [e]) = e.host?.or (lastOpened log) := by
  cases e <;> simp [lastOpened, Event.host?, List.filterMap_append]

theorem verifiesPeer_other (tlsHostname : Option Bytes) (past : List Event) (e : Event)
    (he : ∀ name, e ≠ .sslNew false name) : VerifiesPeer tlsHostname past e :=
  fun name h => absurd h (he name)

section Rounds

variable {cfg : Option Bytes} {t : Conn}

-- A state that is not connecting has nothing to say about a client.
theorem Named.rest {d : Conn} (h : Named cfg t) (hname : d.hostname = t.hostname)
    (htcp : d.tcp ≠ .opening) (hengine : d.ssl = true → d.established = true)
    (hlog : AtEach (VerifiesPeer cfg) d.log) : Named cfg d where
  config := fun name hn => hname ▸ h.config name hn
  connecting := fun hc => absurd hc htcp
  client := fun hc => absurd hc htcp
  engine := hengine
  verified := hlog

theorem Named.fail (h : Named cfg t) (htcp : t.tcp ≠ .opening) (err : Int) :
    Named cfg (t.tlsFail err) := by
  unfold Conn.tlsFail
  dsimp only
  split
  · refine h.rest rfl htcp (by simp [Conn.emit, Conn.tlsResetAfterTerm]) ?_
    exact (atEach_concat _ _ _).mpr ⟨h.verified, verifiesPeer_other _ _ _ (by simp)⟩
  · exact h.rest rfl htcp (by simp [Conn.tlsResetAfterTerm]) h.verified

theorem Named.notifyClose (h : Named cfg t) (htcp : t.tcp ≠ .opening) :
    Named cfg t.tlsNotifyClose := by
  unfold Conn.tlsNotifyClose
  dsimp only
  split
  · exact h
  split
  · refine h.rest rfl htcp (by simp [Conn.emit, Conn.tlsResetAfterTerm]) ?_
    exact (atEach_concat _ _ _).mpr ⟨h.verified, verifiesPeer_other _ _ _ (by simp)⟩
  · exact h.rest rfl htcp (by simp [Conn.tlsResetAfterTerm]) h.verified

theorem Named.close (h : Named cfg t) : Named cfg t.close :=
  h.rest rfl (by simp [Conn.close]) (by simp [Conn.close, Conn.tlsResetAfterTerm]) h.verified

theorem Named.destroy (h : Named cfg t) : Named cfg t.destroy := by
  unfold Conn.destroy
  split
  · exact h
  · exact Named.close ⟨h.config, h.connecting, h.client, h.engine, h.verified⟩

-- An attempt that fails after `enter` leaves an object that is not connecting: it was not
-- established, so it was not connecting before.
theorem Named.aborted (h : Named cfg t) (hest : t.established = false) (isServer : Bool)
    (init : Init) : Named cfg (t.enter isServer init).tlsResetAfterTerm := by
  have htcp : t.tcp ≠ .opening := by
    intro hc
    simp [(h.connecting hc).1] at hest
  exact h.rest rfl htcp (by simp [Conn.tlsResetAfterTerm]) h.verified

theorem Named.openConn (h : Named cfg t) (host : Bytes) (init : Init) (recvBuf name : Bool)
    (tcpRc : Int) (hsafe : cfg.isSome ∨ t.hostname = none ∨ t.hostname = some host) :
    Named cfg (t.openConn host init recvBuf name tcpRc).1 := by
  unfold Conn.openConn
  split
  · exact h
  rename_i hguard
  have hest : t.established = false := by
    cases he : t.established
    · rfl
    · simp [he] at hguard
  have hssl : t.ssl = false := by
    cases hs : t.ssl
    · rfl
    · simp [h.engine hs] at hest
  have hname : t.hostname.getD host = cfg.getD host := by
    cases cfg with
    | some n => simp [h.config n rfl]
    | none =>
        rcases hsafe with hs | hs | hs
        · cases hs
        · simp [hs]
        · simp [hs]
  dsimp only
  split
  · exact h.aborted hest false init
  split
  · exact h.aborted hest false init
  have hconfig : ∀ n, cfg = some n → some (t.hostname.getD host) = some n := by
    rintro n rfl
    simp [h.config n rfl]
  split
  · refine ⟨hconfig, ?_, ?_, ?_, h.verified⟩
    · intro hc
      simp [(h.connecting hc).1] at hest
    · intro hc
      simp [(h.connecting hc).1] at hest
    · simp [Conn.tlsResetAfterTerm]
  · refine ⟨hconfig, ?_, ?_, ?_, ?_⟩
    · exact fun _ => ⟨rfl, hssl⟩
    · intro _ _
      refine ⟨host, ?_, congrArg some hname⟩
      simp [Conn.emit, Conn.enter, lastOpened_concat, Event.host?]
    · exact fun _ => rfl
    · exact (atEach_concat _ _ _).mpr ⟨h.verified, verifiesPeer_other _ _ _ (by simp)⟩

theorem Named.accept (h : Named cfg t) (fd : Int) (init : Init) (recvBuf : Bool) (tcpRc : Int) :
    Named cfg (t.accept fd init recvBuf tcpRc).1 := by
  unfold Conn.accept
  split
  · exact h
  rename_i hguard
  have hest : t.established = false := by
    cases he : t.established
    · rfl
    · simp [he] at hguard
  have hssl : t.ssl = false := by
    cases hs : t.ssl
    · rfl
    · simp [h.engine hs] at hest
  dsimp only
  split
  · exact h.aborted hest true init
  split
  · exact h.aborted hest true init
  · refine ⟨h.config, fun _ => ⟨rfl, hssl⟩, ?_, fun _ => rfl, ?_⟩
    · intro _ hs
      simp [Conn.emit, Conn.enter] at hs
    · exact (atEach_concat _ _ _).mpr ⟨h.verified, verifiesPeer_other _ _ _ (by simp)⟩

-- The handshake of the round that TCP has just connected.
theorem Named.tcpOpen (h : Named cfg t) (hc : t.tcp = .opening) (sslNew : Bool) :
    Named cfg ({ t with tcp := .opened }.tlsStartHandshake sslNew) := by
  have hopen : Named cfg { t with tcp := .opened } := h.rest rfl (by simp) h.engine h.verified
  unfold Conn.tlsStartHandshake
  split
  · exact hopen
  dsimp only
  have hlog : AtEach (VerifiesPeer cfg) (t.log ++ [.sslNew t.isServer t.hostname]) := by
    refine (atEach_concat _ _ _).mpr ⟨h.verified, ?_⟩
    intro name he
    simp only [Event.sslNew.injEq] at he
    obtain ⟨hs, rfl⟩ := he
    exact h.client hc hs
  split
  · exact h.rest rfl (by simp [Conn.emit]) (fun _ => (h.connecting hc).1) hlog
  · have hemit : Named cfg ({ t with tcp := .opened }.emit (.sslNew t.isServer t.hostname)) :=
      h.rest rfl (by simp [Conn.emit]) h.engine hlog
    exact hemit.fail (by simp [Conn.emit]) _

theorem Named.report (h : Named cfg t) (r : Report) : Named cfg (r.run t) := by
  have hssl : t.ssl = true → t.tcp ≠ .opening := by
    intro hs hc
    simp [(h.connecting hc).2] at hs
  have hidle : Named cfg { t with tcp := .idle } := h.rest rfl (by simp) h.engine h.verified
  cases r with
  | tcpOpen sslNew =>
      simp only [Report.run]
      split
      · rename_i hc
        exact h.tcpOpen hc sslNew
      · exact h
  | handshakeDone =>
      simp only [Report.run]
      split
      · exact h
      · rename_i hg
        refine h.rest rfl (hssl ?_) h.engine ?_
        · simp only [Bool.or_eq_true, not_or] at hg
          simpa using hg.1.2
        · exact (atEach_concat _ _ _).mpr ⟨h.verified, verifiesPeer_other _ _ _ (by simp)⟩
  | handshakeFailed =>
      simp only [Report.run]
      split
      · exact h
      · rename_i hg
        refine h.fail (hssl ?_) _
        simp only [Bool.or_eq_true, not_or] at hg
        simpa using hg.1.2
  | dataFailed err =>
      simp only [Report.run]
      split
      · exact h
      · rename_i hg
        refine h.fail (hssl ?_) _
        simp only [Bool.or_eq_true, not_or] at hg
        simpa using hg.1.2
  | tcpClose =>
      simp only [Report.run]
      split
      · exact h
      split
      · exact hidle
      split
      · exact hidle.fail (by simp) _
      split
      · exact hidle
      · exact hidle.notifyClose (by simp)
  | tcpError =>
      simp only [Report.run]
      split
      · exact h
      split
      · exact hidle
      · exact hidle.fail (by simp) _

theorem Named.step (h : Named cfg t) (s : Step) (hsafe : s.Safe cfg t) : Named cfg (s.run t) := by
  cases s with
  | report r => exact h.report r
  | call op =>
      cases op with
      | openConn host init recvBuf name tcpRc =>
          exact h.openConn host init recvBuf name tcpRc hsafe
      | accept fd init recvBuf tcpRc => exact h.accept fd init recvBuf tcpRc
      | close => exact h.close
      | destroy => exact h.destroy

theorem Named.run (steps : List Step) (h : Named cfg t) (hsafe : SafeRun cfg steps t) :
    Named cfg (runSteps steps t) := by
  unfold runSteps
  induction steps generalizing t with
  | nil => exact h
  | cons s rest ih => exact ih (h.step s hsafe.1) hsafe.2

end Rounds

def allCallbacks : Init :=
  { hasOnOpen := true, hasOnData := true, hasOnClose := true, hasOnError := true }

-- A redirect: the same object is closed and opened to another host.
def redirected : List Step :=
  [.call (.openConn (ascii "10.0.0.1") allCallbacks true true 0), .report (.tcpOpen true),
    .report .handshakeDone, .call .close,
    .call (.openConn (ascii "10.0.0.2") allCallbacks true true 0), .report (.tcpOpen true)]

end Sevent.Tls
