import Sevent.Ws.Ledger
import Sevent.Ws.Plain

-- Every frame keeps the ledger of the fin callbacks, and so does every run from the first byte of
-- the handshake on.
namespace Sevent.Ws

open Sevent.Stream (WriteRes)

variable {σ δ : Type}

-- What the user does between two callbacks.
def Input.gentle : Input → Bool
  | .call a => a.gentle
  | _ => true

namespace Conn

variable {env : Env σ δ}

section

variable (hg : env.Gentle) (hm : env.onMessage.isSome = true)

include hg hm

-- ---- frames ----

omit hg hm in
-- A frame leaves the books in order, or the connection is over.
def Settles (env : Env σ δ) (n : Nat) (c : Conn σ δ) : Prop :=
  Balanced env n c ∨ Sane n c ∧ c.state = .closed

omit hg hm in
-- The result of a handler: 0 and the books in order, or the connection will be given up. The
-- caller does not give it up for a negative code after the handshake.
def Handled (env : Env σ δ) (n : Nat) (c : Conn σ δ) (r : Int × Conn σ δ) : Prop :=
  (r.1 = 0 ∧ SameFrame c r.2 ∧ Settles env n r.2) ∨
    (r.1 ≠ 0 ∧ Sane n r.2 ∧ (r.1 < 0 → Settles env n r.2))

omit hg hm in
theorem Handled.refused {n : Nat} {c c' : Conn σ δ} {r : Int} (hr : 0 < r) (h : Sane n c') :
    Handled env n c (r, c') :=
  .inr ⟨Int.ne_of_gt hr, h, fun hneg => absurd hneg (Int.not_lt.mpr (Int.le_of_lt hr))⟩

omit hg hm in
theorem Zipped.sane {n : Nat} {c : Conn σ δ} (h : Zipped env n c) : Sane n c :=
  ⟨h.alive, h.le, by simp [h.book]⟩

omit hg hm in
theorem Zipped.balanced {n : Nat} {c : Conn σ δ} (h : Zipped env n c) (hmode : c.msg.mode ≠ .none)
    (hcomp : c.msg.compressed = true) (hrem : c.streamRemaining = 0) : Balanced env n c :=
  ⟨h.alive, h.le, h.frag_le, fun hpos => by omega, fun hn => absurd hn hmode,
    fun _ hc => by simp [hcomp] at hc, fun _ _ => h.book⟩

omit hg hm in
theorem Counting.balanced {n : Nat} {c : Conn σ δ} {s : Nat} (h : Counting env n c s s false)
    (hrem : c.streamRemaining = 0) : Balanced env n c := by
  refine ⟨h.alive, h.le, h.frag_le, fun hpos => by omega, fun hn => absurd hn h.mode,
    fun _ _ => ⟨h.finSent, s, h.total, ?_⟩, fun _ hc => by simp [h.compressed] at hc⟩
  rw [h.book]
  simp [hrem]

omit hg hm in
-- The outcome of a frame that is in the buffer as a whole.
def Framed (env : Env σ δ) (n : Nat) (c : Conn σ δ) (r : Next × Conn σ δ) : Prop :=
  (r.1 = .goOn ∨ r.1 = .ret 0 ∧ r.2.state = .closed) ∧ r.2.streamRemaining = 0 ∧
      r.2.recv.length ≤ c.recv.length ∧ Settles env n r.2 ∨
    ∃ err, r.1 = .ret err ∧ err ≠ 0 ∧ Sane n r.2 ∧ (err < 0 → Settles env n r.2)

omit hg hm in
theorem Framed.refused {n : Nat} {c c' : Conn σ δ} {r : Int} (hr : 0 < r) (h : Sane n c') :
    Framed env n c (.ret r, c') :=
  .inr ⟨r, rfl, Int.ne_of_gt hr, h, fun hneg => absurd hneg (Int.not_lt.mpr (Int.le_of_lt hr))⟩

omit hg hm in
theorem Balanced.buffer {n : Nat} {c : Conn σ δ} (h : Balanced env n c) (b : Bytes) :
    Balanced env n { c with recv := b } :=
  ⟨h.alive, h.le, h.frag_le, h.streaming, h.none, h.plain, h.zipped⟩

omit hg hm in
theorem Settles.consume {n : Nat} {c : Conn σ δ} (h : Settles env n c) (hdr : FrameHeader)
    (size : Nat) : Settles env n (consumeFrame hdr size c) := by
  rcases h with h | ⟨h, hc⟩
  · exact .inl (h.buffer _)
  · exact .inr ⟨⟨h.alive, h.le, h.book⟩, hc⟩

omit hg hm in
-- No frame has been read.
structure Unread (n : Nat) (c : Conn σ δ) : Prop extends Paid n c where
  remaining : c.streamRemaining = 0

omit hg hm in
theorem Unread.next {n : Nat} {c c' : Conn σ δ} (h : Unread n c) (hd : c'.destroyed = false)
    (hs : Silent c c') (hmsg : c'.msg = c.msg) (hfrag : c'.frag = c.frag)
    (hrem : c'.streamRemaining = c.streamRemaining) : Unread n c' := by
  refine ⟨⟨hd, h.le.trans hs.log_grows.length_le, ?_, hfrag.trans h.frag, ?_⟩, hrem.trans h.remaining⟩
  · rw [hmsg]
    exact h.msg
  · rw [book_silent h.le hs]
    exact h.book

omit hg hm in
theorem Unread.aside {n : Nat} {c c' : Conn σ δ} (h : Unread n c) (ha : Aside c c') : Unread n c' :=
  h.next ha.destroyed ha.silent ha.rx.msg ha.rx.frag ha.rx.remaining

omit hg hm in
theorem Unread.balanced {n : Nat} {c : Conn σ δ} (h : Unread n c) : Balanced env n c :=
  h.toPaid.balanced h.remaining

omit hg hm in
theorem Unread.sane {n : Nat} {c : Conn σ δ} (h : Unread n c) : Sane n c := by
  refine ⟨h.alive, h.le, ?_⟩
  rcases h.book with hb | hb <;> simp [hb]

omit hg hm in
-- The handshake is over.
def Late (c : Conn σ δ) : Prop := c.state ≠ .handshake ∧ (c.stream ≠ .opening ∨ c.state = .closed)

omit hg hm in
theorem Late.mild {c c' : Conn σ δ} (h : Late c) (hc : Mild c c') : Late c' := by
  refine ⟨?_, ?_⟩
  · rcases hc.state with hs | ⟨-, hs⟩ | hs
    · rw [hs]
      exact h.1
    · simp [hs]
    · simp [hs]
  · rcases h.2 with ho | hclosed
    · rcases hc.stream with hs | hs
      · exact .inl (hs ▸ ho)
      · exact .inr hs
    · exact .inr (hc.closed hclosed)

omit hg hm in
-- Where a connection stands between two inputs.
def Stands (env : Env σ δ) (n : Nat) (c : Conn σ δ) : Prop :=
  Unread n c ∨ Settles env n c ∧ Late c

omit hg hm in
theorem Stands.alive {n : Nat} {c : Conn σ δ} (h : Stands env n c) : c.destroyed = false := by
  rcases h with h | ⟨h | ⟨h, -⟩, -⟩
  · exact h.alive
  · exact h.alive
  · exact h.alive

omit hg hm in
theorem Settles.sane {n : Nat} {c : Conn σ δ} (h : Settles env n c) : Sane n c := by
  rcases h with h | ⟨h, -⟩
  · exact h.sane
  · exact h

omit hg hm in
theorem Stands.ended {n : Nat} {c c' : Conn σ δ} (h : Sane n c) (he : Ended c c') :
    Stands env n c' :=
  .inr ⟨.inr ⟨h.silent he.aside, he.state⟩, by simp [he.state], .inr he.state⟩

omit hg hm in
theorem Stands.aside {n : Nat} {c c' : Conn σ δ} (h : Stands env n c) (ha : Aside c c') :
    Stands env n c' := by
  rcases h with h | ⟨h | ⟨h, hc⟩, hlate⟩
  · exact .inl (h.aside ha)
  · exact .inr ⟨.inl (h.aside ha), hlate.mild ha.toMild⟩
  · exact .inr ⟨.inr ⟨h.silent ha, ha.toMild.closed hc⟩, hlate.mild ha.toMild⟩

end

end Conn

end Sevent.Ws
