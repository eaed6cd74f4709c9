import Sevent.Tls.Session

-- The rounds of a TLS connection object: each is reported once, and the object can be used again.
namespace Sevent.Tls

open Sevent.Stream (WriteRes)

-- ---- what a log says of the rounds ----

inductive Round where
  | finished
  | live (userData : Nat)
  deriving DecidableEq, Repr

-- A round ends with one report to its own callbacks, or with the user's close. `none`: some report
-- was missing, or was one too many.
def Round.step : Option Round → Note → Option Round
  | some .finished, .began u => some (.live u)
  | some (.live _), .began _ => none
  | some (.live v), .onClose u _ _ => if u = v then some .finished else none
  | some (.live v), .onError u _ _ _ => if u = v then some .finished else none
  | some (.live v), .unheard u => if u = v then some .finished else none
  | some .finished, .onClose _ _ _ => none
  | some .finished, .onError _ _ _ _ => none
  | some .finished, .unheard _ => none
  | some _, .closeCall => some .finished
  | r, _ => r

def Round.after (log : List Note) : Option Round := log.foldl Round.step (some .finished)

theorem Round.after_concat (log : List Note) (e : Note) :
    Round.after (log ++ [e]) = Round.step (Round.after log) e := by
  simp [Round.after]

-- In on_close and on_error the object is already back in IDLE.
def Note.ready : Note → Bool
  | .onClose _ tcp established => tcp == .idle && !established
  | .onError _ _ tcp established => tcp == .idle && !established
  | _ => true

-- A round is reported when the TCP object is IDLE and the flag is not left over from an earlier
-- report; it is reported again only with the flag still set and no round begun since.
def Note.timely : Note → Bool
  | .ending tcp established closedNotified => tcp == .idle && closedNotified == !established
  | _ => true

def Untimely (log : List Note) : Prop := ∃ e ∈ log, e.timely = false

instance decidableUntimely (log : List Note) : Decidable (Untimely log) :=
  inferInstanceAs (Decidable (∃ e ∈ log, _))

theorem Untimely.mono {log log' : List Note} (hp : log <+: log') (h : Untimely log) : Untimely log' := by
  obtain ⟨e, he, ht⟩ := h
  exact ⟨e, hp.subset he, ht⟩

-- Notes that say nothing of the rounds.
def Note.plain : Note → Bool
  | .onOpen _ => true
  | .onData _ _ => true
  | .nullEngine => true
  | .returned _ => true
  | _ => false

theorem Round.step_plain {e : Note} (he : e.plain = true) (r : Option Round) : Round.step r e = r := by
  rcases r with _ | _ | u <;> cases e <;> first | rfl | cases he

theorem Note.ready_of_plain {e : Note} (he : e.plain = true) : e.ready = true := by
  cases e <;> first | rfl | cases he

namespace Session

-- ---- what every function keeps ----

-- While the call is not told to stop, the engine is there.
theorem tcpWrite_same {cbClose cbError : Session → Session} {res : WriteRes} {s : Session}
    (h : (tcpWrite cbClose cbError res s).1 = Err.inval) :
    (tcpWrite cbClose cbError res s).2 = s := by
  unfold tcpWrite at h ⊢
  split
  · rfl
  rename_i ho
  rw [if_neg ho] at h
  cases res <;> first | rfl | cases h

theorem sendCipherLoop_ssl {env : Env} {cbClose cbError : Session → Session} {cipher : List WriteRes}
    {s : Session} (h : 0 ≤ (sendCipherLoop env cbClose cbError cipher s).1) :
    (sendCipherLoop env cbClose cbError cipher s).2.conn.ssl = true := by
  induction cipher generalizing s with
  | nil =>
      unfold sendCipherLoop at h ⊢
      split
      · assumption
      · rename_i hssl
        rw [if_neg hssl] at h
        cases h
  | cons res rest ih =>
      unfold sendCipherLoop at h ⊢
      by_cases hssl : (!s.conn.ssl) = true
      · rw [if_pos hssl] at h
        cases h
      rw [if_neg hssl] at h ⊢
      dsimp only at h ⊢
      by_cases hinval : (tcpWrite cbClose cbError res s).1 = Err.inval
      · rw [if_pos hinval, tcpWrite_same hinval]
        simpa using hssl
      rw [if_neg hinval] at h ⊢
      by_cases hrc : (tcpWrite cbClose cbError res s).1 ≠ 0
      · rw [if_pos hrc] at h
        cases h
      rw [if_neg hrc] at h ⊢
      exact ih h

theorem sendCipher_ssl {env : Env} {cbClose cbError : Session → Session} {cipher : List WriteRes}
    {s : Session} (hssl : s.conn.ssl = true) (h : 0 ≤ (tlsSendCipher env cbClose cbError cipher s).1) :
    (tlsSendCipher env cbClose cbError cipher s).2.conn.ssl = true := by
  unfold tlsSendCipher at h ⊢
  rw [if_neg (by simp [hssl])] at h ⊢
  exact sendCipherLoop_ssl h

-- A property of the object that the steps of its functions keep.
structure Upholds (env : Env) (cbClose cbError : Session → Session) (P : Session → Prop) : Prop where
  note : ∀ {s : Session} (e : Note), e.plain = true → P s → P (s.note e)
  park : ∀ {s : Session} (n : Nat), s.conn.ssl = true ∨ n = 0 → P s → P { s with pending := n }
  shaken : ∀ {s : Session}, s.conn.ssl = true → P s →
    P { s with conn := { s.conn with handshakeDone := true } }
  fail : ∀ {s : Session} (err : Int), P s → P (tlsFail env err s)
  notifyClose : ∀ {s : Session}, s.conn.ssl = true → P s → P (tlsNotifyClose env s)
  called : ∀ {s : Session} (a : Api), P s → P (callEnded a s)
  tcpWrite : ∀ {s : Session} (res : WriteRes), s.conn.ssl = true → P s →
    P (tcpWrite cbClose cbError res s).2

section

variable {env : Env} {cbClose cbError : Session → Session} {P : Session → Prop}
  (h : Upholds env cbClose cbError P)
include h

theorem Upholds.sendCipherLoop (cipher : List WriteRes) {s : Session} (hs : P s) :
    P (sendCipherLoop env cbClose cbError cipher s).2 := by
  induction cipher generalizing s with
  | nil =>
      unfold Session.sendCipherLoop
      split
      · exact hs
      · exact h.note _ rfl hs
  | cons res rest ih =>
      unfold Session.sendCipherLoop
      split
      · exact h.note _ rfl hs
      rename_i hssl
      have hw := h.tcpWrite res (by simpa using hssl) hs
      dsimp only
      split
      · exact hw
      split
      · exact h.fail _ hw
      · exact ih hw

theorem Upholds.sendCipher (cipher : List WriteRes) {s : Session} (hs : P s) :
    P (tlsSendCipher env cbClose cbError cipher s).2 := by
  unfold tlsSendCipher
  split
  · exact hs
  · exact h.sendCipherLoop cipher hs

theorem Upholds.writeLoop (turn : SslWrite) (left : Nat) {s : Session} (hs : P s) :
    P (writeLoop env cbClose cbError turn left s).2 := by
  induction turn generalizing left s with
  | wrote n cipher next ih =>
      cases left with
      | zero => exact hs
      | succ left =>
          have hc := h.sendCipher cipher hs
          unfold Session.writeLoop
          dsimp only
          split
          · exact hs
          split
          · exact hc
          split
          · exact hc
          · exact ih _ hc
  | wantWrite cipher next ih =>
      cases left with
      | zero => exact hs
      | succ left =>
          have hc := h.sendCipher cipher hs
          unfold Session.writeLoop
          dsimp only
          split
          · exact hs
          split
          · exact hc
          split
          · exact hc
          · exact ih _ hc
  | wantRead ok cipher next ih =>
      cases left with
      | zero => exact hs
      | succ left =>
          unfold Session.writeLoop
          split
          · exact hs
          rename_i hlive
          dsimp only
          split
          · simp only [Bool.or_eq_true, not_or, Bool.not_eq_true', Bool.not_eq_false] at hlive
            exact h.park _ (.inl hlive.2) hs
          · exact hs
  | failed =>
      cases left with
      | zero => exact hs
      | succ left =>
          unfold Session.writeLoop
          split
          · exact hs
          · exact h.fail _ hs

theorem Upholds.write (data : Bytes) {s : Session} (hs : P s) :
    P (write env cbClose cbError data s).2 := by
  unfold Session.write
  split
  · exact hs
  split
  · exact hs
  · exact h.writeLoop _ _ hs

theorem Upholds.call (a : Api) {s : Session} (hs : P s) : P (call env cbClose cbError a s) := by
  unfold Session.call
  split
  · exact h.note _ rfl (h.write _ hs)
  · exact h.called _ hs

theorem Upholds.calls (script : List Api) {s : Session} (hs : P s) :
    P (calls env cbClose cbError script s) := by
  unfold Session.calls
  induction script generalizing s with
  | nil => exact hs
  | cons a rest ih => exact ih (h.call a hs)

theorem Upholds.readChunks (chunks : List (Bytes × List WriteRes)) {s : Session} (hs : P s) :
    P (readChunks env cbClose cbError chunks s).2 := by
  induction chunks generalizing s with
  | nil => exact hs
  | cons chunk rest ih =>
      obtain ⟨data, cipher⟩ := chunk
      have hc := h.sendCipher cipher hs
      unfold Session.readChunks
      dsimp only
      split
      · exact hs
      split
      · exact hc
      · exact ih (h.calls _ (h.note _ rfl hc))

theorem Upholds.readPlain (r : SslRead) {s : Session} (hs : P s) :
    P (tlsReadPlain env cbClose cbError r s) := by
  have hc := h.readChunks r.chunks hs
  unfold tlsReadPlain
  dsimp only
  generalize Session.readChunks env cbClose cbError r.chunks s = p at hc ⊢
  have hs := h.sendCipher r.cipher hc
  split
  · exact hc
  rename_i hlive
  simp only [Bool.or_eq_true, not_or, Bool.not_eq_true', Bool.not_eq_false] at hlive
  split
  · exact hs
  rename_i hsc
  split
  · exact h.notifyClose (sendCipher_ssl hlive.2 (by omega)) hs
  · exact hs
  · exact h.fail _ hs

theorem Upholds.pumpRetries (retries : List (List WriteRes)) {s : Session} (hs : P s) :
    P (pumpRetries env cbClose cbError retries s).2 := by
  induction retries generalizing s with
  | nil => exact hs
  | cons cipher rest ih =>
      have hc := h.sendCipher cipher hs
      unfold Session.pumpRetries
      dsimp only
      split
      · exact hs
      split
      · exact hc
      · exact ih hc

theorem Upholds.pump {s : Session} (hs : P s) : P (tlsPumpHandshake env cbClose cbError s) := by
  have hp := h.pumpRetries (env.handshake s.log).retries hs
  unfold tlsPumpHandshake
  dsimp only
  generalize Session.pumpRetries env cbClose cbError (env.handshake s.log).retries s = p at hp ⊢
  have hc := h.sendCipher (env.handshake s.log).cipher hp
  split
  · exact hp
  rename_i hlive
  simp only [Bool.or_eq_true, not_or, Bool.not_eq_true', Bool.not_eq_false] at hlive
  have hssl : p.2.conn.ssl = true := hlive.2
  split
  · exact hc
  rename_i hsc
  split
  · exact h.readPlain _ (h.calls _ (h.note _ rfl (h.shaken (sendCipher_ssl hssl (by omega)) hc)))
  · exact hc
  · exact h.fail _ hc

theorem Upholds.flushLoop (turn : SslWrite) (left : Nat) {s : Session} (hs : P s) :
    P (flushLoop env cbClose cbError turn left s) := by
  have hagain : ∀ (cipher : List WriteRes) (next : SslWrite) (left : Nat) {s : Session}, P s →
      (∀ (left : Nat) {s : Session}, P s → P (Session.flushLoop env cbClose cbError next left s)) →
      P (if (tlsSendCipher env cbClose cbError cipher s).1 ≠ 0 then
          (tlsSendCipher env cbClose cbError cipher s).2
        else Session.flushLoop env cbClose cbError next left
          (tlsSendCipher env cbClose cbError cipher s).2) := by
    intro cipher next left s hs ih
    have hc := h.sendCipher cipher hs
    split
    · exact hc
    · exact ih _ hc
  induction turn generalizing left s with
  | failed =>
      cases left with
      | zero => exact hs
      | succ left =>
          unfold Session.flushLoop
          split
          · exact hs
          · exact h.fail _ hs
  | _ =>
      rename_i ih
      cases left with
      | zero => exact hs
      | succ left =>
          unfold Session.flushLoop
          split
          · exact hs
          · exact hagain _ _ _ hs fun left _ hs => ih left hs

theorem Upholds.flushPending {s : Session} (hs : P s) : P (tlsFlushPending env cbClose cbError s) := by
  unfold tlsFlushPending
  split
  · exact hs
  · exact h.park 0 (.inr rfl) (h.flushLoop _ _ hs)

theorem Upholds.cbData (data : Bytes) {s : Session} (hs : P s) :
    P (tcpCbData env cbClose cbError data s) := by
  unfold tcpCbData
  split
  · exact hs
  split
  · exact h.fail _ hs
  split
  · exact h.pump hs
  · exact h.flushPending (h.readPlain _ hs)

end

-- ---- opening and closing ----

-- What sevent_tls_conn_open and sevent_tls_conn_accept can do.
inductive Starts (s : Session) : Session → Prop where
  | refused : Starts s s
  | failed {s' : Session} : s.conn.established = false → s.conn.destroyed = false →
      s'.log = s.log → s'.conn.established = false → s'.conn.ssl = false →
      s'.conn.handshakeDone = false → s'.conn.tcp = s.conn.tcp →
      s'.conn.destroyed = s.conn.destroyed → Starts s s'
  | begun {s' : Session} : s.conn.established = false → s.conn.destroyed = false →
      s.conn.tcp = .idle → s'.log = s.log ++ [.began s'.userData] → s'.conn.established = true →
      s'.conn.ssl = s.conn.ssl → s'.conn.handshakeDone = s.conn.handshakeDone →
      s'.conn.tcp = .opening → s'.conn.destroyed = s.conn.destroyed → Starts s s'

theorem tcpStart_ok {t : Conn} {rc : Int} (h : ¬ t.tcpStart rc < 0) : t.tcp = .idle := by
  by_contra hne
  rw [Conn.tcpStart, if_neg hne] at h
  exact h (by decide)

theorem not_enters (s : Session) (setup : Setup) :
    (!setup.hasOnOpen || !setup.hasOnData || s.conn.established || s.conn.destroyed) =
      !s.enters setup := by
  unfold enters
  cases setup.hasOnOpen <;> cases setup.hasOnData <;> cases s.conn.established <;> simp

theorem enters_free {s : Session} {setup : Setup} (h : s.enters setup = true) :
    s.conn.established = false ∧ s.conn.destroyed = false := by
  unfold enters at h
  simp only [Bool.and_eq_true, Bool.not_eq_true'] at h
  exact ⟨h.1.2, h.2⟩

theorem entered_failed {s : Session} {setup : Setup} {ok : Bool} {t : Conn} {rc : Int}
    (hfree : s.conn.established = false ∧ s.conn.destroyed = false) (hrc : rc < 0)
    (htcp : t.tcp = s.conn.tcp) (hd : t.destroyed = s.conn.destroyed) :
    Starts s (s.entered ok setup (t.tlsResetAfterTerm, rc)).2 := by
  unfold entered
  dsimp only
  rw [if_neg (by omega)]
  exact .failed hfree.1 hfree.2 rfl rfl rfl rfl htcp hd

theorem openConn_starts (host : Bytes) (setup : Setup) (recvBuf name : Bool) (tcpRc : Int)
    (s : Session) : Starts s (s.openConn host setup recvBuf name tcpRc).2 := by
  unfold openConn Conn.openConn
  rw [not_enters]
  cases hen : s.enters setup with
  | false => exact .refused
  | true =>
      have hfree := enters_free hen
      simp only [Bool.not_true, Bool.false_eq_true, if_false]
      split
      · exact entered_failed hfree (by decide) rfl rfl
      split
      · exact entered_failed hfree (by decide) rfl rfl
      split
      · exact entered_failed hfree ‹_› rfl rfl
      · rename_i hrc
        unfold entered
        dsimp only
        rw [if_pos (by omega)]
        exact .begun hfree.1 hfree.2 (tcpStart_ok hrc) rfl rfl rfl rfl rfl rfl

theorem accept_starts (fd : Int) (setup : Setup) (recvBuf : Bool) (tcpRc : Int) (s : Session) :
    Starts s (s.accept fd setup recvBuf tcpRc).2 := by
  unfold accept Conn.accept
  rw [not_enters]
  cases hen : s.enters setup with
  | false => exact .refused
  | true =>
      have hfree := enters_free hen
      simp only [Bool.not_true, Bool.false_or, decide_eq_true_eq, Bool.true_and]
      split
      · rename_i hfd
        have hneg : decide (0 ≤ fd) = false := by simpa using hfd
        rw [hneg]
        exact .refused
      rename_i hfd
      have hpos : decide (0 ≤ fd) = true := by simpa using hfd
      rw [hpos]
      split
      · exact entered_failed hfree (by decide) rfl rfl
      split
      · exact entered_failed hfree ‹_› rfl rfl
      · rename_i hrc
        unfold entered
        dsimp only
        rw [if_pos (by omega)]
        exact .begun hfree.1 hfree.2 (tcpStart_ok hrc) rfl rfl rfl rfl rfl rfl

-- ---- logs only grow ----

theorem Starts.grows {s s' : Session} (h : Starts s s') : s.log <+: s'.log := by
  cases h with
  | refused => exact List.prefix_rfl
  | failed _ _ hlog _ _ _ _ _ => exact hlog ▸ List.prefix_rfl
  | begun _ _ _ hlog _ _ _ _ _ => exact hlog ▸ List.prefix_append _ _

theorem note_grows {L : List Note} {s : Session} (e : Note) (h : L <+: s.log) : L <+: (s.note e).log :=
  h.trans (List.prefix_append _ _)

theorem destroy_grows {L : List Note} {s : Session} (h : L <+: s.log) : L <+: s.destroy.log := by
  unfold destroy
  split
  · exact h
  · exact note_grows _ (note_grows _ h)

theorem callEnded_grows {L : List Note} (a : Api) {s : Session} (h : L <+: s.log) :
    L <+: (callEnded a s).log := by
  cases a with
  | openConn host setup recvBuf name tcpRc =>
      exact note_grows _ (h.trans (openConn_starts host setup recvBuf name tcpRc s).grows)
  | accept fd setup recvBuf tcpRc =>
      exact note_grows _ (h.trans (accept_starts fd setup recvBuf tcpRc s).grows)
  | write data => exact note_grows _ h
  | close => exact note_grows _ (note_grows _ h)
  | destroy => exact note_grows _ (destroy_grows h)

theorem callsEnded_grows {L : List Note} (script : List Api) {s : Session} (h : L <+: s.log) :
    L <+: (callsEnded script s).log := by
  unfold callsEnded
  induction script generalizing s with
  | nil => exact h
  | cons a rest ih => exact ih (callEnded_grows a h)

theorem fail_grows {env : Env} {L : List Note} (err : Int) {s : Session} (h : L <+: s.ending.log) :
    L <+: (tlsFail env err s).log := by
  have hreset : L <+: s.ending.reset.log := h
  unfold tlsFail
  dsimp only
  split
  · split
    · exact callsEnded_grows _ (note_grows (s := s.ending.reset.notified) _ hreset)
    · exact note_grows _ hreset
  · exact hreset

theorem notifyClose_grows {env : Env} {L : List Note} {s : Session} (h : L <+: s.ending.log) :
    L <+: (tlsNotifyClose env s).log := by
  have hreset : L <+: s.ending.reset.notified.log := h
  unfold tlsNotifyClose
  dsimp only
  split
  · split
    · exact callsEnded_grows _ (note_grows _ hreset)
    · exact note_grows _ hreset
  · exact h

theorem cbError_grows {env : Env} {L : List Note} {s : Session} (h : L <+: s.log) :
    L <+: (tcpCbError env s).log := by
  unfold tcpCbError
  split
  · exact h
  · exact fail_grows _ (note_grows _ h)

theorem grows_upheld (env : Env) {cbClose cbError : Session → Session} {L : List Note}
    (hclose : ∀ {s : Session}, L <+: s.log → L <+: (cbClose s).log)
    (herror : ∀ {s : Session}, L <+: s.log → L <+: (cbError s).log) :
    Upholds env cbClose cbError fun s => L <+: s.log where
  note := fun e _ h => note_grows e h
  park := fun _ _ h => h
  shaken := fun _ h => h
  fail := fun err h => fail_grows err (note_grows _ h)
  notifyClose := fun _ h => notifyClose_grows (note_grows _ h)
  called := fun a h => callEnded_grows a h
  tcpWrite := fun {s} res _ h => by
    unfold Session.tcpWrite
    split
    · exact h
    · cases res with
      | failed err => exact herror (s := s.setTcp .idle) h
      | torn accepted => exact hclose (s := s.setTcp .idle) h
      | _ => exact h

theorem closed_grows {env : Env} {L : List Note} {s : Session} (h : L <+: s.log) :
    L <+: (closedByTcp env s).log := by
  unfold closedByTcp tcpCbClose
  split
  · exact h
  split
  · exact fail_grows _ (note_grows _ h)
  · exact (grows_upheld env (fun {_} h => h) fun {_} h => h).readPlain _ h

theorem session_grows {env : Env} {L : List Note} :
    Upholds env (closedByTcp env) (tcpCbError env) fun s => L <+: s.log :=
  grows_upheld env closed_grows cbError_grows

-- ---- the object between two rounds and in one ----

-- `late`: the TCP object may have closed under a round whose engine is not there yet.
def In (late : Bool) (s : Session) : Round → Prop
  | .finished => s.conn.established = false ∧ s.conn.tcp = .idle
  | .live u => s.conn.established = true ∧ s.userData = u ∧
      (late = false → s.conn.ssl = false → s.conn.tcp ≠ .idle)

-- `tcp`: the state of the TCP object while the engine works.
structure Held (late : Bool) (tcp : TcpState) (s : Session) : Prop where
  round : ∃ r, Round.after s.log = some r ∧ In late s r
  ready : ∀ e ∈ s.log, e.ready = true
  engine : s.conn.ssl = true → s.conn.established = true ∧ s.conn.tcp = tcp
  shaken : s.conn.handshakeDone = true → s.conn.ssl = true
  gone : s.conn.destroyed = true → s.conn.established = false

variable {late : Bool} {tcp : TcpState} {s : Session}

theorem Held.note (h : Held late tcp s) {e : Note} (he : e.plain = true) : Held late tcp (s.note e) := by
  obtain ⟨r, hr, hin⟩ := h.round
  refine ⟨⟨r, ?_, by (cases r <;> exact hin)⟩, ?_, h.engine, h.shaken, h.gone⟩
  · rw [Session.note, Round.after_concat, Round.step_plain he, hr]
  · intro e' hmem
    rcases List.mem_append.mp hmem with hmem | hmem
    · exact h.ready e' hmem
    · rw [List.mem_singleton.mp hmem]
      exact Note.ready_of_plain he

-- Without an engine the state of the TCP object is free.
theorem Held.any (h : Held late tcp s) (hssl : s.conn.ssl = false) (tcp' : TcpState) :
    Held late tcp' s :=
  ⟨h.round, h.ready, fun hs => (by rw [hssl] at hs; cases hs), h.shaken, h.gone⟩

theorem Held.finished (h : Held late tcp s) (hest : s.conn.established = false) :
    Round.after s.log = some .finished ∧ s.conn.tcp = .idle ∧ s.conn.ssl = false ∧
      s.conn.handshakeDone = false := by
  obtain ⟨r, hr, hin⟩ := h.round
  have hssl : s.conn.ssl = false := by
    by_contra hne
    cases hest.symm.trans (h.engine (by simpa using hne)).1
  have hdone : s.conn.handshakeDone = false := by
    by_contra hne
    cases hssl.symm.trans (h.shaken (by simpa using hne))
  cases r with
  | finished => exact ⟨hr, hin.2, hssl, hdone⟩
  | live u => cases hest.symm.trans hin.1

theorem Held.started (h : Held false tcp s) {s' : Session} (hs : Starts s s') : Held false tcp s' := by
  cases hs with
  | refused => exact h
  | failed hest hd hlog hest' hssl hdone htcp hd' =>
      obtain ⟨hr, hidle, -, -⟩ := h.finished hest
      refine ⟨⟨.finished, hlog ▸ hr, hest', htcp.trans hidle⟩, hlog ▸ h.ready, ?_, ?_, fun _ => hest'⟩
      · intro hne
        cases hssl.symm.trans hne
      · intro hne
        cases hdone.symm.trans hne
  | begun hest hd hidle hlog hest' hssl hdone htcp hd' =>
      obtain ⟨hr, -, hnone, hnot⟩ := h.finished hest
      refine ⟨⟨.live s'.userData, ?_, hest', rfl, fun _ _ => by rw [htcp]; decide⟩, ?_, ?_, ?_, ?_⟩
      · rw [hlog, Round.after_concat, hr]
        rfl
      · intro e he
        rw [hlog] at he
        rcases List.mem_append.mp he with he | he
        · exact h.ready e he
        · rw [List.mem_singleton.mp he]
          rfl
      · intro hne
        cases (hssl.trans hnone).symm.trans hne
      · intro hne
        cases (hdone.trans hnot).symm.trans hne
      · intro hne
        cases (hd'.trans hd).symm.trans hne

-- The user's close, whatever the state.
theorem close_held {r : Round} (hr : Round.after s.log = some r) (hready : ∀ e ∈ s.log, e.ready = true) :
    Held false tcp s.close := by
  refine ⟨⟨.finished, ?_, rfl, rfl⟩, ?_, fun h => (by cases h), fun h => (by cases h), fun _ => rfl⟩
  · have : s.close.log = s.log ++ [.closeCall] := rfl
    rw [this, Round.after_concat, hr]
    cases r <;> rfl
  · intro e he
    rcases List.mem_append.mp he with he | he
    · exact hready e he
    · rw [List.mem_singleton.mp he]
      rfl

theorem Held.close (h : Held late tcp s) : Held false tcp s.close := by
  obtain ⟨r, hr, -⟩ := h.round
  exact close_held hr h.ready

theorem Held.destroy (h : Held false tcp s) : Held false tcp s.destroy := by
  unfold Session.destroy
  split
  · exact h
  obtain ⟨r, hr, -⟩ := h.round
  refine close_held (r := r) ?_ ?_
  · rw [Session.note, Round.after_concat]
    dsimp only
    rw [hr]
    cases r <;> rfl
  · intro e he
    rcases List.mem_append.mp he with he | he
    · exact h.ready e he
    · rw [List.mem_singleton.mp he]
      rfl

theorem Held.called (h : Held false tcp s) (a : Api) : Held false tcp (callEnded a s) := by
  cases a with
  | openConn host setup recvBuf name tcpRc =>
      exact (h.started (openConn_starts host setup recvBuf name tcpRc s)).note rfl
  | accept fd setup recvBuf tcpRc => exact (h.started (accept_starts fd setup recvBuf tcpRc s)).note rfl
  | write data => exact h.note rfl
  | close => exact h.close.note rfl
  | destroy => exact h.destroy.note rfl

-- Between an end and a new handshake there is no engine.
theorem Starts.ssl {s s' : Session} (h : Starts s s') (hssl : s.conn.ssl = false) :
    s'.conn.ssl = false := by
  cases h with
  | refused => exact hssl
  | failed _ _ _ _ h _ _ _ => exact h
  | begun _ _ _ _ _ h _ _ _ => exact h.trans hssl

theorem callEnded_ssl (a : Api) (hssl : s.conn.ssl = false) : (callEnded a s).conn.ssl = false := by
  cases a with
  | openConn host setup recvBuf name tcpRc =>
      exact (openConn_starts host setup recvBuf name tcpRc s).ssl hssl
  | accept fd setup recvBuf tcpRc => exact (accept_starts fd setup recvBuf tcpRc s).ssl hssl
  | write data => exact hssl
  | close => rfl
  | destroy =>
      show (Session.destroy s).conn.ssl = false
      unfold Session.destroy
      split
      · exact hssl
      · rfl

theorem Held.calledAll (h : Held false tcp s) (hssl : s.conn.ssl = false) (script : List Api) :
    Held false tcp (callsEnded script s) ∧ (callsEnded script s).conn.ssl = false := by
  unfold callsEnded
  induction script generalizing s with
  | nil => exact ⟨h, hssl⟩
  | cons a rest ih => exact ih (h.called a) (callEnded_ssl a hssl)

-- ---- the end of a round ----

-- Reported in time, the round is over; the callback may begin another one.
def Done (s : Session) : Prop :=
  Untimely s.log ∨ (∀ tcp, Held false tcp s) ∧ s.conn.ssl = false

theorem untimely_ending (h : s.ending.log.getLast?.any Note.timely = false) : Untimely s.ending.log := by
  refine ⟨_, List.mem_append_right _ (List.mem_singleton.mpr rfl), ?_⟩
  simpa [ending, Session.note] using h

-- What holds when an end comes in time.
theorem ending_cases (s : Session) :
    Untimely s.ending.log ∨ s.conn.tcp = .idle ∧ s.conn.closedNotified = !s.conn.established := by
  cases ht : (Note.ending s.conn.tcp s.conn.established s.conn.closedNotified).timely with
  | false => exact .inl ⟨_, List.mem_append_right _ (List.mem_singleton.mpr rfl), ht⟩
  | true => exact .inr (by simpa [Note.timely] using ht)

-- After the reset, with the report in the log.
theorem reported_held {u : Nat} {e : Note} (hlog : Round.after s.log = some (.live u))
    (hready : ∀ e ∈ s.log, e.ready = true) (he : e.ready = true)
    (hstep : Round.step (some (.live u)) e = some .finished) {s' : Session}
    (hlog' : s'.log = s.ending.log ++ [e]) (hest : s'.conn.established = false)
    (hidle : s'.conn.tcp = .idle) (hssl : s'.conn.ssl = false) (hdone : s'.conn.handshakeDone = false) :
    Held false tcp s' := by
  refine ⟨⟨.finished, ?_, hest, hidle⟩, ?_, ?_, ?_, fun _ => hest⟩
  · rw [hlog', Round.after_concat, ending, Session.note, Round.after_concat, hlog]
    exact hstep
  · intro e' hmem
    rw [hlog'] at hmem
    rcases List.mem_append.mp hmem with hmem | hmem
    · rcases List.mem_append.mp hmem with hmem | hmem
      · exact hready e' hmem
      · rw [List.mem_singleton.mp hmem]
        rfl
    · rw [List.mem_singleton.mp hmem]
      exact he
  · intro h
    cases hssl.symm.trans h
  · intro h
    cases hdone.symm.trans h

theorem Held.silent (h : Held late tcp s) (hest : s.conn.established = false) :
    ∀ tcp, Held false tcp s.ending.reset := by
  obtain ⟨hr, hidle, -, -⟩ := h.finished hest
  intro tcp
  refine ⟨⟨.finished, ?_, rfl, hidle⟩, ?_, fun h => (by cases h), fun h => (by cases h), fun _ => rfl⟩
  · show Round.after (s.log ++ [_]) = _
    rw [Round.after_concat, hr]
    rfl
  · intro e hmem
    rcases List.mem_append.mp hmem with hmem | hmem
    · exact h.ready e hmem
    · rw [List.mem_singleton.mp hmem]
      rfl

theorem Held.fail {env : Env} (h : Held late tcp s) (err : Int) : Done (tlsFail env err s) := by
  rcases ending_cases s with hu | ⟨hidle, hflag⟩
  · exact .inl (hu.mono (fail_grows err List.prefix_rfl))
  obtain ⟨r, hr, hin⟩ := h.round
  right
  unfold tlsFail
  dsimp only
  rw [hflag, Bool.not_not]
  cases r with
  | finished =>
      rw [if_neg (by simp [hin.1])]
      exact ⟨h.silent hin.1, rfl⟩
  | live u =>
      rw [if_pos hin.1]
      split
      · have hnotified : ∀ tcp, Held false tcp (s.ending.reset.notified.note (.onError
            s.ending.reset.notified.userData err s.ending.reset.notified.conn.tcp
            s.ending.reset.notified.conn.established)) := by
          intro tcp
          refine reported_held hr h.ready ?_ ?_ rfl rfl hidle rfl rfl
          · simp [Note.ready, Session.notified, Session.reset, Session.ending, Session.note,
              Conn.tlsResetAfterTerm, hidle]
          · exact if_pos hin.2.1
        have hcalls := fun tcp => (hnotified tcp).calledAll rfl
        exact ⟨fun tcp => (hcalls tcp _).1, (hcalls .idle _).2⟩
      · refine ⟨fun tcp => reported_held hr h.ready rfl ?_ rfl rfl hidle rfl rfl, rfl⟩
        exact if_pos hin.2.1

theorem Held.notifyClose {env : Env} (h : Held late tcp s) (hssl : s.conn.ssl = true) :
    Done (tlsNotifyClose env s) := by
  rcases ending_cases s with hu | ⟨hidle, hflag⟩
  · exact .inl (hu.mono (notifyClose_grows List.prefix_rfl))
  obtain ⟨r, hr, hin⟩ := h.round
  right
  unfold tlsNotifyClose
  dsimp only
  rw [hflag, Bool.not_not, if_pos (h.engine hssl).1]
  cases r with
  | finished => cases hin.1.symm.trans (h.engine hssl).1
  | live u =>
      split
      · have hnotified : ∀ tcp, Held false tcp (s.ending.reset.notified.note (.onClose
            s.ending.reset.notified.userData s.ending.reset.notified.conn.tcp
            s.ending.reset.notified.conn.established)) := by
          intro tcp
          refine reported_held hr h.ready ?_ ?_ rfl rfl hidle rfl rfl
          · simp [Note.ready, Session.notified, Session.reset, Session.ending, Session.note,
              Conn.tlsResetAfterTerm, hidle]
          · exact if_pos hin.2.1
        have hcalls := fun tcp => (hnotified tcp).calledAll rfl
        exact ⟨fun tcp => (hcalls tcp _).1, (hcalls .idle _).2⟩
      · refine ⟨fun tcp => reported_held hr h.ready rfl ?_ rfl rfl hidle rfl rfl, rfl⟩
        exact if_pos hin.2.1

-- ---- the functions over the engine ----

-- Some report came at the wrong time, or all is well.
def Good (tcp : TcpState) (s : Session) : Prop := Untimely s.log ∨ Held false tcp s

theorem Done.good (h : Done s) : Good tcp s := h.imp_right fun h => h.1 tcp

theorem Good.grown {s' : Session} (h : Good tcp s) (hp : s.log <+: s'.log)
    (hheld : Held false tcp s → Good tcp s') : Good tcp s' := by
  rcases h with h | h
  · exact .inl (h.mono hp)
  · exact hheld h

-- The TCP object closes under the engine.
theorem Held.dropped (h : Held false tcp s) (hssl : s.conn.ssl = true) :
    Held false .idle (s.setTcp .idle) := by
  obtain ⟨r, hr, hin⟩ := h.round
  have hest := (h.engine hssl).1
  refine ⟨⟨r, hr, ?_⟩, h.ready, fun _ => ⟨hest, rfl⟩, h.shaken, h.gone⟩
  cases r with
  | finished => cases hin.1.symm.trans hest
  | live u => exact ⟨hest, hin.2.1, fun _ hno => by cases hno.symm.trans hssl⟩

theorem Held.undestroyed (h : Held late tcp s) (hest : s.conn.established = true) :
    s.conn.destroyed = false := by
  by_contra hd
  cases (h.gone (by simpa using hd)).symm.trans hest

theorem step_grows {env : Env} {L : List Note} (i : SessionInput) (h : L <+: s.log) :
    L <+: (s.step env i).log := by
  cases i with
  | tcpOpened =>
      simp only [step]
      split
      · unfold tlsStartHandshake
        dsimp only
        split
        · exact h
        split
        · exact session_grows.pump h
        · exact fail_grows _ (note_grows _ h)
      · exact h
  | tcpData data =>
      simp only [step]
      split
      · exact session_grows.cbData data h
      · exact h
  | tcpClosed =>
      simp only [step]
      split
      · exact closed_grows h
      · exact h
  | tcpFailed =>
      simp only [step]
      split
      · exact cbError_grows h
      · exact h
  | call a => exact session_grows.call a h

-- A round is there while the TCP object is not IDLE.
theorem Held.live (h : Held false tcp s) (htcp : s.conn.tcp ≠ .idle) :
    s.conn.established = true ∧ s.conn.destroyed = false ∧
      ∃ r, Round.after s.log = some r ∧ ∀ tcp, In true (s.setTcp tcp) r := by
  obtain ⟨r, hr, hin⟩ := h.round
  cases r with
  | finished => exact absurd hin.2 htcp
  | live u => exact ⟨hin.1, h.undestroyed hin.1, _, hr, fun _ => ⟨hin.1, hin.2.1, fun h => by cases h⟩⟩

-- The TCP object closes or fails by itself.
theorem Held.lost (h : Held false tcp s) (htcp : s.conn.tcp ≠ .idle) :
    ∃ late, Held late .idle (s.setTcp .idle) ∧ (s.conn.handshakeDone = true → late = false) := by
  cases hssl : s.conn.ssl with
  | true => exact ⟨false, h.dropped hssl, fun _ => rfl⟩
  | false =>
      obtain ⟨hest, -, r, hr, hin⟩ := h.live htcp
      refine ⟨true, ⟨⟨r, hr, hin _⟩, h.ready, ?_, h.shaken, h.gone⟩, ?_⟩
      · intro hs
        cases hssl.symm.trans hs
      · intro hdone
        cases hssl.symm.trans (h.shaken hdone)

-- The connection is there, with or without an engine.
theorem Held.connected (h : Held false .opened s) (htcp : s.conn.tcp = .opening) {s' : Session}
    (hlog : s'.log = s.log) (huser : s'.userData = s.userData)
    (hest : s'.conn.established = s.conn.established)
    (hdone : s'.conn.handshakeDone = s.conn.handshakeDone)
    (hd : s'.conn.destroyed = s.conn.destroyed) (hopen : s'.conn.tcp = .opened) :
    Held false .opened s' := by
  obtain ⟨r, hr, hin⟩ := h.round
  have hnone : s.conn.ssl = false := by
    by_contra hne
    cases htcp.symm.trans (h.engine (by simpa using hne)).2
  cases r with
  | finished => cases htcp.symm.trans hin.2
  | live u =>
      refine ⟨⟨.live u, hlog ▸ hr, hest.trans hin.1, huser.trans hin.2.1, fun _ _ => ?_⟩,
        hlog ▸ h.ready, fun _ => ⟨hest.trans hin.1, hopen⟩, ?_, ?_⟩
      · rw [hopen]
        decide
      · intro hyes
        cases hnone.symm.trans (h.shaken (hdone.symm.trans hyes))
      · intro hyes
        exact hest.trans (h.gone (hd.symm.trans hyes))

end Session

end Sevent.Tls
