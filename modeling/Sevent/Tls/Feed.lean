import Sevent.Tcp.Object
import Sevent.Tls.Writing

-- Feeding what a TCP read has brought: between two reads the engine has used up its channel, so
-- that the size of a read alone decides whether it is taken.
namespace Sevent.Tls

variable {ε κ : Type}

-- The engine goes on with what has been fed until it has to report that it wants more.
structure Engine.Reads (E : Engine ε) : Prop where
  handshake : ∀ e, (E.handshake e).DryOn fun a => a.1 = .wantRead
  read : ∀ e cap, (E.read e cap).DryOn fun a => a.1 = .want

-- What on_data of the TCP object brings: the length is an int.
structure TcpRead (recvBufSize : Nat) (data : Bytes) : Prop where
  pos : 0 < data.length
  le : data.length ≤ Tcp.Object.capacity recvBufSize
  int : data.length ≤ Loop.intMax

namespace Flow

-- A new engine in tls_start_handshake. Both layers get the recv_buf_size of open or accept.
def started (backend : Backend) (recvBufSize : Nat) (e : ε) (k : κ) : Flow ε κ :=
  { ssl := true, handshakeDone := false, recvCap := Tcp.Object.capacity recvBufSize
    channel := ⟨.new backend, []⟩, pending := [], pendingCap := 0, engine := e, outside := k
    taken := [], tcpOver := false, errors := [] }

inductive Input where
  | data (b : Bytes)
  | write (b : Bytes)
  deriving DecidableEq, Repr

section

variable (E : Engine ε) (O : Outside κ)

def step (fuel : Nat) (w : Flow ε κ) : Input → Option (Flow ε κ)
  | .data b => w.tcpCbData E O fuel b
  | .write b => (w.write E O fuel b).map Prod.snd

def run (fuel : Nat) : List Input → Flow ε κ → Option (Flow ε κ)
  | [], w => some w
  | i :: inputs, w => (step E O fuel w i).bind (run fuel inputs)

-- A round from its handshake on.
def round (fuel : Nat) (w : Flow ε κ) (inputs : List Input) : Option (Flow ε κ) :=
  (w.tlsPumpHandshake E O fuel).bind (run E O fuel inputs)

end

variable {E : Engine ε} {O : Outside κ}

-- ---- writing leaves the channel in order ----

theorem tlsSendCipher_inbox (w : Flow ε κ) : (tlsSendCipher O w).2.channel.inbox = w.channel.inbox := by
  unfold tlsSendCipher
  split
  · rfl
  · dsimp only
    split <;> rfl

-- What no call into the engine breaks.
def Kept (P : Inbox → Prop) : Prop :=
  ∀ {α : Type} (t : Talk α) {ch : Channel}, P ch.inbox → P (t.run ch).2.inbox

theorem ok_kept : Kept Inbox.Ok := fun t _ h => t.run_ok h

-- Everything that has been fed is used up.
def Blank (i : Inbox) : Prop := i.Ok ∧ i.unread = []

theorem blank_kept : Kept Blank := by
  intro α t ch h
  exact (t.run_empty h.1 h.2).symm ▸ h

variable {P : Inbox → Prop}

theorem tlsParkWrite_inbox (data : Bytes) (w : Flow ε κ) :
    (tlsParkWrite O data w).2.channel = w.channel := by
  unfold tlsParkWrite
  split
  · split <;> rfl
  · rfl

theorem sslWrite_kept (hP : Kept P) {w : Flow ε κ} (h : P w.channel.inbox) (data : Bytes) :
    P (w.sslWrite E data).2.channel.inbox := hP _ h

theorem sent_kept {w : Flow ε κ} (h : P w.channel.inbox) : P (tlsSendCipher O w).2.channel.inbox := by
  rw [tlsSendCipher_inbox]
  exact h

theorem writeTurn_kept (hP : Kept P) (s : Flow ε κ × Bytes) (h : P s.1.channel.inbox) :
    Sum.elim (fun r => P r.2.channel.inbox) (fun s => P s.1.channel.inbox) (writeTurn E O s) := by
  have hcall : P (s.1.sslWrite E s.2).2.channel.inbox := sslWrite_kept hP h s.2
  unfold writeTurn
  split
  · exact h
  split
  · exact h
  dsimp only
  generalize s.1.sslWrite E s.2 = r at hcall ⊢
  obtain ⟨rc, w⟩ := r
  cases rc with
  | took n =>
      have hsent : P (tlsSendCipher O (w.take n s.2)).2.channel.inbox := sent_kept hcall
      dsimp only
      split
      · exact hsent
      · split <;> exact hsent
  | wantRead =>
      dsimp only [Sum.elim_inl]
      rw [tlsParkWrite_inbox]
      exact hcall
  | wantWrite =>
      have hsent : P (tlsSendCipher O w).2.channel.inbox := sent_kept hcall
      dsimp only
      split
      · exact hsent
      · split <;> exact hsent
  | failed => exact hcall

theorem write_kept (hP : Kept P) {fuel : Nat} {data : Bytes} {w : Flow ε κ} {r : Int × Flow ε κ}
    (h : P w.channel.inbox) (hr : w.write E O fuel data = some r) : P r.2.channel.inbox := by
  unfold write at hr
  split at hr
  · cases hr
    exact h
  split at hr
  · cases hr
    exact h
  · exact While.Ends.invariant (Q := fun r : Int × Flow ε κ => P r.2.channel.inbox)
      (writeTurn_kept hP) h ⟨fuel, hr⟩

theorem writes_kept (hP : Kept P) {fuel : Nat} (script : List Bytes) {w w' : Flow ε κ}
    (h : P w.channel.inbox) (hw : writes E O fuel script w = some w') : P w'.channel.inbox := by
  induction script generalizing w with
  | nil =>
      cases hw
      exact h
  | cons data script ih =>
      obtain ⟨r, hr, hrest⟩ := Option.bind_eq_some_iff.mp hw
      exact ih (write_kept hP h hr) hrest

theorem flushTurn_kept (hP : Kept P) (s : Flow ε κ × Bytes) (h : P s.1.channel.inbox) :
    Sum.elim (fun w => P w.channel.inbox) (fun s => P s.1.channel.inbox) (flushTurn E O s) := by
  have hcall : P (s.1.sslWrite E s.2).2.channel.inbox := sslWrite_kept hP h s.2
  unfold flushTurn
  split
  · exact h
  split
  · exact h
  dsimp only
  generalize s.1.sslWrite E s.2 = r at hcall ⊢
  obtain ⟨rc, w⟩ := r
  have hsent : ∀ w : Flow ε κ, P w.channel.inbox → P (tlsSendCipher O w).2.channel.inbox :=
    fun w h => sent_kept h
  cases rc with
  | took n =>
      dsimp only
      split <;> exact hsent (w.take n s.2) hcall
  | wantRead =>
      dsimp only
      split <;> exact hsent w hcall
  | wantWrite =>
      dsimp only
      split <;> exact hsent w hcall
  | failed => exact hcall

theorem tlsFlushPending_kept (hP : Kept P) {fuel : Nat} {w w' : Flow ε κ} (h : P w.channel.inbox)
    (hw : w.tlsFlushPending E O fuel = some w') : P w'.channel.inbox := by
  unfold tlsFlushPending at hw
  split at hw
  · cases hw
    exact h
  · obtain ⟨u, hu, rfl⟩ := Option.map_eq_some_iff.mp hw
    have hu' : P u.channel.inbox :=
      While.Ends.invariant (Q := fun w : Flow ε κ => P w.channel.inbox) (flushTurn_kept hP) h ⟨fuel, hu⟩
    exact hu'

-- ---- between two reads ----

-- Nothing waits in the channel of a round that goes on.
structure Rests (w : Flow ε κ) : Prop where
  ok : w.channel.inbox.Ok
  empty : w.ssl = true → w.channel.inbox.unread = []

-- The three ways out of a loop over the engine.
theorem Rests.of_over {w : Flow ε κ} (h : w.channel.inbox.Ok) (hssl : w.ssl = false) : Rests w :=
  ⟨h, fun hlive => absurd (hlive.symm.trans hssl) (by decide)⟩

theorem tlsSendCipher_over {w : Flow ε κ} (h : (tlsSendCipher O w).1 < 0) :
    (tlsSendCipher O w).2.ssl = false := by
  have hone : ¬ (1 : Int) < 0 := by decide
  unfold tlsSendCipher at h ⊢
  split at h
  · exact absurd h hone
  · rename_i hssl
    rw [if_neg hssl]
    dsimp only at h ⊢
    split at h
    · exact absurd h (Int.lt_irrefl 0)
    · exact absurd h hone
    · rfl
    · rfl
    · rfl

theorem onData_ok {fuel : Nat} {b : Bytes} {w w' : Flow ε κ} (h : w.channel.inbox.Ok)
    (hw : w.onData E O fuel b = some w') : w'.channel.inbox.Ok :=
  writes_kept (w := { w with outside := (O.onData w.outside b).2 }) ok_kept _ h hw

theorem onOpen_ok {fuel : Nat} {w w' : Flow ε κ} (h : w.channel.inbox.Ok)
    (hw : w.onOpen E O fuel = some w') : w'.channel.inbox.Ok :=
  writes_kept (w := { w with outside := (O.onOpen w.outside).2 }) ok_kept _ h hw

theorem readTurn_rests (hE : E.Reads) (fuel : Nat) (w : Flow ε κ) (h : w.channel.inbox.Ok) :
    Sum.elim (fun r => ∀ w', r = some w' → Rests w') (fun w => w.channel.inbox.Ok)
      (readTurn E O fuel w) := by
  have hok : ((E.read w.engine w.recvCap).run w.channel).2.inbox.Ok := Talk.run_ok _ h
  have hdry := Talk.run_dry _ (hE.read w.engine w.recvCap) h
  unfold readTurn
  split
  · rename_i hssl
    rintro w' ⟨rfl⟩
    exact .of_over h (by simpa using hssl)
  dsimp only
  generalize (E.read w.engine w.recvCap).run w.channel = r at hok hdry ⊢
  have hinbox := tlsSendCipher_inbox (O := O) { w with engine := r.1.2, channel := r.2 }
  have hover := tlsSendCipher_over (O := O) (w := { w with engine := r.1.2, channel := r.2 })
  generalize tlsSendCipher O { w with engine := r.1.2, channel := r.2 } = c at hinbox hover ⊢
  have hc : c.2.channel.inbox.Ok := hinbox ▸ hok
  split
  · rename_i hneg
    rintro w' ⟨rfl⟩
    exact .of_over hc (hover hneg)
  · split
    · split
      · rename_i hw
        exact onData_ok hc hw
      · rintro w' ⟨⟩
    · rintro w' ⟨rfl⟩
      exact .of_over hc rfl
    · rename_i hwant
      rintro w' ⟨rfl⟩
      exact ⟨hc, fun _ => hinbox ▸ hdry hwant⟩
    · rintro w' ⟨rfl⟩
      exact .of_over hc rfl

theorem tlsReadPlain_rests (hE : E.Reads) {fuel : Nat} {w w' : Flow ε κ} (h : w.channel.inbox.Ok)
    (hw : w.tlsReadPlain E O fuel = some w') : Rests w' :=
  While.Ends.invariant (Q := fun r : Option (Flow ε κ) => ∀ w', r = some w' → Rests w')
    (readTurn_rests hE fuel) h ⟨fuel, Option.join_eq_some_iff.mp hw⟩ w' rfl

theorem pumpTurn_rests (hE : E.Reads) (fuel : Nat) (w : Flow ε κ) (h : w.channel.inbox.Ok) :
    Sum.elim (fun r => ∀ w', r = some w' → Rests w') (fun w => w.channel.inbox.Ok)
      (pumpTurn E O fuel w) := by
  have hok : ((E.handshake w.engine).run w.channel).2.inbox.Ok := Talk.run_ok _ h
  have hdry := Talk.run_dry _ (hE.handshake w.engine) h
  unfold pumpTurn
  split
  · rename_i hssl
    rintro w' ⟨rfl⟩
    exact .of_over h (by simpa using hssl)
  dsimp only
  generalize (E.handshake w.engine).run w.channel = r at hok hdry ⊢
  have hinbox := tlsSendCipher_inbox (O := O) { w with engine := r.1.2, channel := r.2 }
  have hover := tlsSendCipher_over (O := O) (w := { w with engine := r.1.2, channel := r.2 })
  generalize tlsSendCipher O { w with engine := r.1.2, channel := r.2 } = c at hinbox hover ⊢
  have hc : c.2.channel.inbox.Ok := hinbox ▸ hok
  split
  · rename_i hneg
    rintro w' ⟨rfl⟩
    exact .of_over hc (hover hneg)
  · split
    · intro w' hw
      obtain ⟨u, hu, hread⟩ := Option.bind_eq_some_iff.mp hw
      exact tlsReadPlain_rests hE (onOpen_ok (w := { c.2 with handshakeDone := true }) hc hu) hread
    · rename_i hwant
      rintro w' ⟨rfl⟩
      exact ⟨hc, fun _ => hinbox ▸ hdry hwant⟩
    · exact hc
    · rintro w' ⟨rfl⟩
      exact .of_over hc rfl

theorem tlsPumpHandshake_rests (hE : E.Reads) {fuel : Nat} {w w' : Flow ε κ} (h : w.channel.inbox.Ok)
    (hw : w.tlsPumpHandshake E O fuel = some w') : Rests w' :=
  While.Ends.invariant (Q := fun r : Option (Flow ε κ) => ∀ w', r = some w' → Rests w')
    (pumpTurn_rests hE fuel) h ⟨fuel, Option.join_eq_some_iff.mp hw⟩ w' rfl

theorem write_rests {fuel : Nat} {data : Bytes} {w : Flow ε κ} {r : Int × Flow ε κ} (h : Rests w)
    (hr : w.write E O fuel data = some r) : Rests r.2 := by
  by_cases hssl : w.ssl = true
  · obtain ⟨hok, hempty⟩ := write_kept blank_kept ⟨h.ok, h.empty hssl⟩ hr
    exact ⟨hok, fun _ => hempty⟩
  · unfold write at hr
    rw [if_pos (by simp [hssl])] at hr
    cases hr
    exact h

theorem tlsFlushPending_rests {fuel : Nat} {w w' : Flow ε κ} (h : Rests w)
    (hw : w.tlsFlushPending E O fuel = some w') : Rests w' := by
  by_cases hssl : w.ssl = true
  · obtain ⟨hok, hempty⟩ := tlsFlushPending_kept blank_kept ⟨h.ok, h.empty hssl⟩ hw
    exact ⟨hok, fun _ => hempty⟩
  · -- the loop is left at once
    refine .of_over (tlsFlushPending_kept ok_kept h.ok hw) ?_
    unfold tlsFlushPending at hw
    split at hw
    · cases hw
      simpa using hssl
    · rename_i hpending
      obtain ⟨u, hu, rfl⟩ := Option.map_eq_some_iff.mp hw
      have hturn : flushTurn E O (w, w.pending) = .inl w := by
        unfold flushTurn
        rw [if_neg hpending, if_pos (by simp [hssl])]
      obtain rfl := (While.Ends.of_end hturn).unique ⟨fuel, hu⟩
      simpa using hssl

theorem tcpCbData_rests (hE : E.Reads) {fuel : Nat} {data : Bytes} {w w' : Flow ε κ} (h : Rests w)
    (hw : w.tcpCbData E O fuel data = some w') : Rests w' := by
  unfold tcpCbData at hw
  split at hw
  · cases hw
    exact h
  · rename_i hssl
    obtain ⟨backend, hnew⟩ := Inbox.eq_new h.ok (h.empty (by simpa using hssl))
    have hok : (w.sslFeed data).2.channel.inbox.Ok := by
      rw [sslFeed, hnew]
      exact Inbox.new_feed_ok backend data
    dsimp only at hw
    generalize w.sslFeed data = r at hok hw
    split at hw
    · cases hw
      exact .of_over hok rfl
    · split at hw
      · exact tlsPumpHandshake_rests hE hok hw
      · obtain ⟨u, hu, hflush⟩ := Option.bind_eq_some_iff.mp hw
        exact tlsFlushPending_rests (tlsReadPlain_rests hE hok hu) hflush

theorem step_rests (hE : E.Reads) {fuel : Nat} {w w' : Flow ε κ} (h : Rests w) (i : Input)
    (hw : step E O fuel w i = some w') : Rests w' := by
  cases i with
  | data b => exact tcpCbData_rests hE h hw
  | write b =>
      obtain ⟨r, hr, rfl⟩ := Option.map_eq_some_iff.mp hw
      exact write_rests h hr

theorem run_rests (hE : E.Reads) {fuel : Nat} (inputs : List Input) {w w' : Flow ε κ} (h : Rests w)
    (hw : run E O fuel inputs w = some w') : Rests w' := by
  induction inputs generalizing w with
  | nil =>
      cases hw
      exact h
  | cons i inputs ih =>
      obtain ⟨u, hu, hrest⟩ := Option.bind_eq_some_iff.mp hw
      exact ih (step_rests hE h i hu) hrest

theorem round_rests (hE : E.Reads) {fuel : Nat} {backend : Backend} {recvBufSize : Nat} {e : ε} {k : κ}
    {inputs : List Input} {w : Flow ε κ}
    (hw : round E O fuel (started backend recvBufSize e k) inputs = some w) : Rests w := by
  obtain ⟨u, hu, hrun⟩ := Option.bind_eq_some_iff.mp hw
  exact run_rests hE inputs (tlsPumpHandshake_rests hE (Inbox.new_ok backend).1 hu) hrun

-- Whatever has come before, a read is taken if it is not longer than the channel. So every read is
-- taken if and only if recv_buf_size is no more than that.
theorem ciphertext_taken_iff (hE : E.Reads) (backend : Backend) (recvBufSize : Nat) (e : ε) (k : κ)
    (fuel : Nat) (inputs : List Input) (w : Flow ε κ)
    (hw : round E O fuel (started backend recvBufSize e k) inputs = some w) (hlive : w.ssl = true) :
    (∀ data, TcpRead recvBufSize data → ((w.sslFeed data).1 = 0 ↔ data.length ≤ 65536)) ∧
      ((∀ data, TcpRead recvBufSize data → (w.sslFeed data).1 = 0) ↔
        Tcp.Object.capacity recvBufSize ≤ 65536) := by
  have hrests := round_rests hE hw
  obtain ⟨b, hnew⟩ := Inbox.eq_new hrests.ok (hrests.empty hlive)
  have hfeed : ∀ data, TcpRead recvBufSize data → ((w.sslFeed data).1 = 0 ↔ data.length ≤ 65536) := by
    intro data hread
    rw [sslFeed, hnew]
    exact Inbox.new_feed_iff b hread.pos hread.int
  refine ⟨hfeed, fun hall => ?_, fun hcap data hread => ?_⟩
  · by_contra hlarge
    have hlen : (List.replicate 65537 (0 : UInt8)).length = 65537 := List.length_replicate
    have hint : 65537 ≤ Loop.intMax := by decide
    have hread : TcpRead recvBufSize (List.replicate 65537 0) := ⟨by omega, by omega, by omega⟩
    have hle := (hfeed _ hread).mp (hall _ hread)
    omega
  · exact (hfeed data hread).mpr (Nat.le_trans hread.le hcap)

theorem rekeying_reads : rekeying.Reads := by
  constructor
  · intro e b hb
    cases hb
  · intro e cap b hb
    cases hb

-- The default size.
theorem ciphertext_taken_default : ((shaken (.pair []) []).sslFeed [0x17, 3, 3]).1 = 0 := by
  have hround : round rekeying openTcp 3 (started .openssl 0 () ()) [.data [0x16]] =
      some (shaken (.pair []) []) := rfl
  have hcap : Tcp.Object.capacity 0 ≤ 65536 := by decide
  exact (ciphertext_taken_iff rekeying_reads .openssl 0 () () 3 _ _ hround rfl).2.mpr hcap _
    ⟨by decide, by decide, by decide⟩

-- A buffer of one byte more than the channel, and a read that fills it.
theorem large_read_rejected :
    rekeying.Reads ∧ ∃ w, round rekeying openTcp 3 (started .mbedtls 65537 () ()) [.data [0x16]] = some w ∧
      w.ssl = true ∧ TcpRead 65537 (List.replicate 65537 0x17) ∧
      (w.sslFeed (List.replicate 65537 0x17)).1 ≠ 0 ∧
      (w.tcpCbData rekeying openTcp 3 (List.replicate 65537 0x17)).map (fun w => w.errors) =
        some [Err.read] := by
  have hlen : (List.replicate 65537 (0x17 : UInt8)).length = 65537 := List.length_replicate
  generalize List.replicate 65537 (0x17 : UInt8) = data at hlen ⊢
  have hint : 65537 ≤ Loop.intMax := by decide
  have hcap : Tcp.Object.capacity 65537 = 65537 := by decide
  have hread : TcpRead 65537 data := ⟨by omega, by omega, by omega⟩
  refine ⟨rekeying_reads, { shaken (.flat [] 0) [] with recvCap := 65537 }, rfl, rfl, hread, ?_⟩
  have hne : (({ shaken (.flat [] 0) [] with recvCap := 65537 } : Flow Unit Unit).sslFeed data).1 ≠ 0 := by
    intro hzero
    have hle := (Inbox.new_feed_iff .mbedtls hread.pos hread.int).mp hzero
    omega
  refine ⟨hne, ?_⟩
  unfold tcpCbData
  rw [if_neg (by decide)]
  simp only [hne, ne_eq, not_false_eq_true, if_true]
  rfl

end Flow

end Sevent.Tls
