import Sevent.Basic
import Sevent.Loop.Context

-- The ciphertext channel of a TLS connection (ssl_openssl.c, ssl_mbedtls.c): the peer's bytes wait
-- in it for the engine, and the engine's bytes wait to be drained. What the engine does with it
-- in one call is a tree of the bio callbacks that it makes.
namespace Sevent.Tls

inductive Backend where
  | openssl | mbedtls
  deriving DecidableEq, Repr

def osslPairSize : Nat := 64 * 1024
def mbtlsBufSize : Nat := 64 * 1024

theorem osslPairSize_eq : osslPairSize = 65536 := rfl
theorem mbtlsBufSize_eq : mbtlsBufSize = 65536 := rfl

-- What has been fed.
inductive Inbox where
  -- the bytes of a BIO pair that have not been read
  | pair (unread : Bytes)
  -- recv_buf as far as recv_len, and recv_pos
  | flat (recvBuf : Bytes) (recvPos : Nat)
  deriving DecidableEq, Repr

namespace Inbox

def new : Backend → Inbox
  | .openssl => .pair []
  | .mbedtls => .flat [] 0

def unread : Inbox → Bytes
  | .pair unread => unread
  | .flat recvBuf recvPos => recvBuf.drop recvPos

-- A pair takes what it has room for.
def bioWrite (unread data : Bytes) (dlen : Int) : Int × Bytes :=
  let room := osslPairSize - unread.length
  if dlen ≤ 0 then (0, unread)
  else if room = 0 then (-1, unread)
  else (min dlen room, unread ++ data.take (min dlen room).toNat)

def osslFeed (unread data : Bytes) : Int × Inbox :=
  let w := bioWrite unread data (Loop.toInt data.length)
  (if w.1 = Loop.toInt data.length then 0 else -1, .pair w.2)

def mbtlsFeed (recvBuf : Bytes) (recvPos : Nat) (data : Bytes) : Int × Inbox :=
  if mbtlsBufSize - recvBuf.length < data.length then (-1, .flat recvBuf recvPos)
  else (0, .flat (recvBuf ++ data) recvPos)

-- sevent_ssl_feed
def feed (data : Bytes) : Inbox → Int × Inbox
  | .pair unread => osslFeed unread data
  | .flat recvBuf recvPos => mbtlsFeed recvBuf recvPos data

-- BIO_read, and mbtls_bio_recv before sevent_ssl_peer_close. `none` = WANT_READ.
def recv (len : Nat) : Inbox → Option Bytes × Inbox
  | .pair unread =>
      if unread = [] then (none, .pair unread) else (some (unread.take len), .pair (unread.drop len))
  | .flat recvBuf recvPos =>
      let avail := recvBuf.length - recvPos
      if avail = 0 then (none, .flat recvBuf recvPos)
      else
        let n := min avail len
        let out := (recvBuf.drop recvPos).take n
        -- what has been used up whole starts again
        if recvPos + n = recvBuf.length then (some out, .flat [] 0)
        else (some out, .flat recvBuf (recvPos + n))

-- recv_pos stays behind recv_len, but for a buffer that is empty.
def Ok : Inbox → Prop
  | .pair _ => True
  | .flat recvBuf recvPos => recvPos < recvBuf.length ∨ recvBuf = [] ∧ recvPos = 0

theorem new_ok (b : Backend) : (new b).Ok ∧ (new b).unread = [] := by
  cases b
  · exact ⟨trivial, rfl⟩
  · exact ⟨.inr ⟨rfl, rfl⟩, rfl⟩

theorem recv_ok {i : Inbox} (h : i.Ok) (len : Nat) : (i.recv len).2.Ok := by
  cases i with
  | pair unread =>
      simp only [recv]
      split <;> trivial
  | flat recvBuf recvPos =>
      simp only [recv]
      split
      · exact h
      · rename_i havail
        split
        · exact .inr ⟨rfl, rfl⟩
        · rename_i hrest
          exact .inl (by omega)

-- Nothing is read from an empty channel, and only from one.
theorem recv_eq_none {i : Inbox} (h : i.Ok) (len : Nat) : (i.recv len).1 = none ↔ i.unread = [] := by
  cases i with
  | pair unread =>
      simp only [recv, Inbox.unread]
      split
      · rename_i hnil
        simp [hnil]
      · rename_i hne
        simp [hne]
  | flat recvBuf recvPos =>
      simp only [recv]
      have hunread : (Inbox.flat recvBuf recvPos).unread = [] ↔ recvBuf.length - recvPos = 0 := by
        rw [Inbox.unread, List.drop_eq_nil_iff, Nat.sub_eq_zero_iff_le]
      rw [hunread]
      split
      · rename_i hzero
        simp [hzero]
      · rename_i hpos
        split <;> simp [hpos]

-- An empty read leaves the channel as it is.
theorem recv_none {i : Inbox} {len : Nat} (h : (i.recv len).1 = none) :
    (i.recv len).2 = i := by
  cases i with
  | pair unread =>
      simp only [Inbox.recv] at h ⊢
      split
      · rfl
      · rename_i hne
        rw [if_neg hne] at h
        cases h
  | flat recvBuf recvPos =>
      simp only [Inbox.recv] at h ⊢
      split
      · rfl
      · rename_i hne
        rw [if_neg hne] at h
        split at h <;> cases h

theorem recv_empty {i : Inbox} (h : i.Ok) (hi : i.unread = []) (len : Nat) : i.recv len = (none, i) :=
  Prod.ext ((recv_eq_none h len).mpr hi) (recv_none ((recv_eq_none h len).mpr hi))

-- What has been used up has given its room back.
theorem eq_new {i : Inbox} (h : i.Ok) (hi : i.unread = []) : ∃ b, i = new b := by
  cases i with
  | pair unread =>
      obtain rfl : unread = [] := hi
      exact ⟨.openssl, rfl⟩
  | flat recvBuf recvPos =>
      rcases h with h | ⟨rfl, rfl⟩
      · exact absurd (List.drop_eq_nil_iff.mp hi) (Nat.not_le.mpr h)
      · exact ⟨.mbedtls, rfl⟩

-- An empty channel takes what is not longer than itself.
theorem new_feed_iff (b : Backend) {data : Bytes} (hdata : 0 < data.length)
    (hint : data.length ≤ Loop.intMax) : ((new b).feed data).1 = 0 ↔ data.length ≤ 65536 := by
  cases b with
  | openssl =>
      have hlen : Loop.toInt data.length = data.length := (Loop.toInt_eq_iff _).mpr hint
      have hcap := osslPairSize_eq
      simp only [new, feed, osslFeed, bioWrite, hlen, List.length_nil, Nat.sub_zero]
      generalize osslPairSize = cap at hcap ⊢
      have hpos : ¬ (data.length : Int) ≤ 0 := by omega
      have hroom : cap ≠ 0 := by omega
      simp only [hpos, hroom, if_false]
      split
      · exact ⟨fun _ => by omega, fun _ => rfl⟩
      · exact ⟨fun h => by omega, fun h => by omega⟩
  | mbedtls =>
      have hcap := mbtlsBufSize_eq
      simp only [new, feed, mbtlsFeed, List.length_nil, Nat.sub_zero]
      generalize mbtlsBufSize = cap at hcap ⊢
      by_cases hlong : cap < data.length
      · rw [if_pos hlong]
        exact ⟨fun h => absurd h (by decide), fun h => by omega⟩
      · rw [if_neg hlong]
        exact ⟨fun _ => by omega, fun _ => rfl⟩

theorem new_feed_ok (b : Backend) (data : Bytes) : ((new b).feed data).2.Ok := by
  cases b with
  | openssl => simp only [new, feed, osslFeed, Ok]
  | mbedtls =>
      simp only [new, feed, mbtlsFeed]
      generalize mbtlsBufSize - List.length [] = cap
      by_cases hlong : cap < data.length
      · rw [if_pos hlong]
        exact .inr ⟨rfl, rfl⟩
      · rw [if_neg hlong]
        cases data with
        | nil => exact .inr ⟨rfl, rfl⟩
        | cons c data => exact .inl (Nat.succ_pos _)

end Inbox

structure Channel where
  inbox : Inbox
  -- the ciphertext that has not been drained
  out : Bytes
  deriving DecidableEq, Repr

-- send_buf, and the other pair
def channelOut : Nat := 64 * 1024

-- BIO_write on the engine's side, and mbtls_bio_send. `none` = WANT_WRITE.
def Channel.send (data : Bytes) (ch : Channel) : Option Nat × Channel :=
  let free := channelOut - ch.out.length
  if free = 0 then (none, ch)
  else
    let n := min data.length free
    (some n, { ch with out := ch.out ++ data.take n })

-- One call into the engine.
inductive Talk (α : Type) where
  | recv (len : Nat) (next : Option Bytes → Talk α)
  | send (data : Bytes) (next : Option Nat → Talk α)
  | answer (a : α)

namespace Talk

variable {α : Type}

def run : Talk α → Channel → α × Channel
  | .recv len next, ch =>
      let (b, inbox) := ch.inbox.recv len
      (next b).run { ch with inbox := inbox }
  | .send data next, ch =>
      let (n, ch) := ch.send data
      (next n).run ch
  | .answer a, ch => (a, ch)

-- Such an answer is given only when a read has found the channel empty.
def DryOn (P : α → Prop) : Talk α → Prop
  | .recv _ next => ∀ b, (next (some b)).DryOn P
  | .send _ next => ∀ n, (next n).DryOn P
  | .answer a => ¬ P a

theorem send_inbox (data : Bytes) (ch : Channel) : (ch.send data).2.inbox = ch.inbox := by
  unfold Channel.send
  dsimp only
  split <;> rfl

theorem run_ok (t : Talk α) {ch : Channel} (h : ch.inbox.Ok) : (t.run ch).2.inbox.Ok := by
  induction t generalizing ch with
  | recv len next ih => exact ih _ (Inbox.recv_ok h len)
  | send data next ih =>
      have hsame : (ch.send data).2.inbox.Ok := (send_inbox data ch).symm ▸ h
      exact ih _ hsame
  | answer a => exact h

theorem run_empty (t : Talk α) {ch : Channel} (h : ch.inbox.Ok) (hi : ch.inbox.unread = []) :
    (t.run ch).2.inbox = ch.inbox := by
  induction t generalizing ch with
  | recv len next ih =>
      rw [run, Inbox.recv_empty h hi]
      exact ih _ h hi
  | send data next ih =>
      have hsame := send_inbox data ch
      rw [run, ih _ (by rw [hsame]; exact h) (by rw [hsame]; exact hi), hsame]
  | answer a => rfl

theorem run_dry {P : α → Prop} (t : Talk α) (ht : t.DryOn P) {ch : Channel} (h : ch.inbox.Ok)
    (hP : P (t.run ch).1) : (t.run ch).2.inbox.unread = [] := by
  induction t generalizing ch with
  | recv len next ih =>
      have hok := Inbox.recv_ok h len
      rw [run] at hP ⊢
      cases hrecv : (ch.inbox.recv len).1 with
      | none =>
          -- the channel is empty, and stays so to the end of the call
          have hempty := Inbox.recv_empty h ((Inbox.recv_eq_none h len).mp hrecv) len
          rw [hempty]
          have hunread := (Inbox.recv_eq_none h len).mp hrecv
          rw [run_empty _ (by exact h) (by exact hunread)]
          exact hunread
      | some b =>
          dsimp only at hP ⊢
          rw [hrecv] at hP ⊢
          exact ih (some b) (ht b) hok hP
  | send data next ih =>
      have hsame : (ch.send data).2.inbox.Ok := (send_inbox data ch).symm ▸ h
      exact ih _ (ht _) hsame hP
  | answer a => exact absurd hP ht

end Talk

-- What the calls return, with what sevent_ssl_want says of them.
inductive HandshakeRc where
  | done | wantRead | wantWrite | failed
  deriving DecidableEq, Repr

inductive ReadRc where
  | data (b : Bytes)
  | eof | want | failed
  deriving DecidableEq, Repr

inductive WriteRc where
  | took (n : Nat)
  | wantRead | wantWrite | failed
  deriving DecidableEq, Repr

structure Engine (ε : Type) where
  handshake : ε → Talk (HandshakeRc × ε)
  read : ε → Nat → Talk (ReadRc × ε)
  write : ε → Bytes → Talk (WriteRc × ε)

end Sevent.Tls
