import Mathlib.Order.WellFounded
import Sevent.Tls.Flow

-- Writing over an engine that takes plaintext, waits for its ciphertext to be drained, or waits for
-- the peer: sevent_tls_conn_write always returns, and tls_flush_pending returns unless the engine
-- comes to wait for the peer.
namespace Sevent.Tls

variable {ε κ : Type}

-- What sevent_ssl_write does. `owes` bounds the ciphertext that a plaintext still makes; it is 0
-- for an engine that answers WANT_WRITE only to a call that finds the channel full.
structure Engine.Writes (E : Engine ε) (owes : ε → Bytes → Nat) (waits : ε → Inbox → Bytes → Prop) :
    Prop where
  took : ∀ {e ch data n e' ch'}, (E.write e data).run ch = ((.took n, e'), ch') → 0 < n ∧ n ≤ data.length
  -- the ciphertext fills the channel
  full : ∀ {e ch data e' ch'}, (E.write e data).run ch = ((.wantWrite, e'), ch') →
    channelOut ≤ ch'.out.length ∧ owes e' data + ch'.out.length ≤ owes e data + ch.out.length
  wantRead : ∀ {e ch data e' ch'}, (E.write e data).run ch = ((.wantRead, e'), ch') →
    waits e' ch'.inbox data
  -- the answer stays the same until more is fed
  again : ∀ {e inbox data}, waits e inbox data → ∀ out, ∃ e' inbox',
    (E.write e data).run ⟨inbox, out⟩ = ((.wantRead, e'), ⟨inbox', out⟩)

-- The channel when the TCP object has taken all of its ciphertext.
def Outside.emptied (O : Outside κ) (k : κ) (ch : Channel) : Option (κ × Channel) :=
  let r := Flow.sendCipherLoop O ch.out.length k ch.out
  if r.1 = none then some (r.2.1, { ch with out := [] }) else none

-- The engine, given the plaintext until it has taken it and relieved of its ciphertext after each
-- call, comes to wait for the peer.
inductive AsksInput (E : Engine ε) (O : Outside κ) : ε → Channel → κ → Bytes → Prop where
  | wantRead {e ch k data e' ch' r} : data ≠ [] → (E.write e data).run ch = ((.wantRead, e'), ch') →
      O.emptied k ch' = some r → AsksInput E O e ch k data
  | took {e ch k data n e' ch' k' ch''} : data ≠ [] →
      (E.write e data).run ch = ((.took n, e'), ch') → O.emptied k ch' = some (k', ch'') →
      AsksInput E O e' ch'' k' (data.drop n) → AsksInput E O e ch k data
  | wantWrite {e ch k data e' ch' k' ch''} : data ≠ [] →
      (E.write e data).run ch = ((.wantWrite, e'), ch') → O.emptied k ch' = some (k', ch'') →
      AsksInput E O e' ch'' k' data → AsksInput E O e ch k data

namespace Flow

variable {E : Engine ε} {O : Outside κ}

theorem sendCipherLoop_none (fuel : Nat) {k : κ} {out : Bytes} (hfuel : out.length ≤ fuel)
    (h : (sendCipherLoop O fuel k out).1 = none) : (sendCipherLoop O fuel k out).2.2 = [] := by
  induction fuel generalizing k out with
  | zero => exact List.eq_nil_of_length_eq_zero (Nat.le_zero.mp hfuel)
  | succ fuel ih =>
      rw [sendCipherLoop] at h ⊢
      split
      · assumption
      · rename_i hne
        rw [if_neg hne] at h
        dsimp only at h ⊢
        split
        · rename_i hok
          rw [if_pos hok] at h
          have hpos := List.length_pos_iff.mpr hne
          have hlen : (out.drop sendCap).length ≤ fuel := by
            rw [List.length_drop, sendCap]
            omega
          exact ih hlen h
        · rename_i hres
          rw [if_neg hres] at h
          cases h

-- Without an engine, or with a TCP connection that is over, there is nothing to write to.
def Over (w : Flow ε κ) : Prop := w.ssl = false ∨ w.tcpOver = true

theorem tlsSendCipher_some {w : Flow ε κ} (hssl : w.ssl = true) {k : κ} {ch : Channel}
    (h : O.emptied w.outside w.channel = some (k, ch)) :
    tlsSendCipher O w = (0, { w with outside := k, channel := ch }) := by
  unfold Outside.emptied at h
  dsimp only at h
  split at h
  · rename_i hnone
    have hnil := sendCipherLoop_none _ (Nat.le_refl _) hnone
    cases h
    simp only [tlsSendCipher, hssl, Bool.not_true, Bool.false_eq_true, if_false, hnone, hnil]
  · cases h

theorem tlsSendCipher_none {w : Flow ε κ} (h : O.emptied w.outside w.channel = none) :
    (tlsSendCipher O w).1 ≠ 0 ∧ (tlsSendCipher O w).2.Over := by
  unfold Outside.emptied at h
  dsimp only at h
  split at h
  · cases h
  · rename_i hsome
    have hone : (1 : Int) ≠ 0 := by decide
    have hneg : (-1 : Int) ≠ 0 := by decide
    unfold tlsSendCipher
    split
    · rename_i hssl
      exact ⟨hone, .inl (by simpa using hssl)⟩
    · dsimp only
      split
      · rename_i hnone
        exact absurd hnone hsome
      · exact ⟨hone, .inr rfl⟩
      · exact ⟨hneg, .inl rfl⟩
      · exact ⟨hneg, .inl rfl⟩
      · exact ⟨hneg, .inl rfl⟩

-- The engine has answered, and its ciphertext has gone.
def called (w : Flow ε κ) (e : ε) (ch : Channel) (k : κ) : Flow ε κ :=
  { w with engine := e, channel := ch, outside := k }

-- A turn that goes on with what the engine has not taken.
inductive Goes (E : Engine ε) (O : Outside κ) : Flow ε κ × Bytes → Flow ε κ × Bytes → Prop where
  | took {w data n e' ch' k' ch''} : w.ssl = true → data ≠ [] →
      (E.write w.engine data).run w.channel = ((.took n, e'), ch') →
      O.emptied w.outside ch' = some (k', ch'') →
      Goes E O (w, data) ((w.take n data).called e' ch'' k', data.drop n)
  | wantWrite {w data e' ch' k' ch''} : w.ssl = true → data ≠ [] →
      (E.write w.engine data).run w.channel = ((.wantWrite, e'), ch') →
      O.emptied w.outside ch' = some (k', ch'') → Goes E O (w, data) (w.called e' ch'' k', data)

-- A turn of a loop that asks again for the same data.
inductive Waits (E : Engine ε) (O : Outside κ) : Flow ε κ × Bytes → Flow ε κ × Bytes → Prop where
  | mk {w data e' ch' k' ch''} : w.ssl = true → data ≠ [] →
      (E.write w.engine data).run w.channel = ((.wantRead, e'), ch') →
      O.emptied w.outside ch' = some (k', ch'') → Waits E O (w, data) (w.called e' ch'' k', data)

theorem sslWrite_eq {w : Flow ε κ} {data : Bytes} {rc : WriteRc} {e' : ε} {ch' : Channel}
    (h : (E.write w.engine data).run w.channel = ((rc, e'), ch')) :
    w.sslWrite E data = (rc, { w with engine := e', channel := ch' }) := by
  simp only [sslWrite, h]

-- tls_send_cipher after a call that has left an engine behind.
theorem sent_cases (w : Flow ε κ) (hssl : w.ssl = true) :
    (∃ k ch, O.emptied w.outside w.channel = some (k, ch) ∧
      tlsSendCipher O w = (0, { w with outside := k, channel := ch })) ∨
    O.emptied w.outside w.channel = none ∧ (tlsSendCipher O w).1 ≠ 0 ∧ (tlsSendCipher O w).2.Over := by
  cases h : O.emptied w.outside w.channel with
  | none => exact .inr ⟨rfl, tlsSendCipher_none h⟩
  | some r => exact .inl ⟨r.1, r.2, rfl, tlsSendCipher_some hssl h⟩

-- What a turn of sevent_tls_conn_write does.
theorem writeTurn_cases (s : Flow ε κ × Bytes) :
    (∃ s', writeTurn E O s = .inr s' ∧ Goes E O s s') ∨
    (s.2 = [] ∧ writeTurn E O s = .inl (0, s.1)) ∨
    (∃ w', writeTurn E O s = .inl (0, w') ∧ w'.taken = s.1.taken ∧ w'.pending = s.2) ∨
    (∃ rc w', writeTurn E O s = .inl (rc, w') ∧ rc ≠ 0 ∧ (rc = Err.nomem ∨ w'.Over)) := by
  obtain ⟨w, data⟩ := s
  have hwrite : Err.write ≠ 0 := by decide
  have hinval : Err.inval ≠ 0 := by decide
  have hnomem : Err.nomem ≠ 0 := by decide
  unfold writeTurn
  by_cases hdata : data = []
  · rw [if_pos hdata]
    exact .inr (.inl ⟨hdata, rfl⟩)
  rw [if_neg hdata]
  by_cases hssl : w.ssl = true
  swap
  · rw [if_pos (by simpa using hssl)]
    exact .inr (.inr (.inr ⟨_, _, rfl, hinval, .inr (.inl (by simpa using hssl))⟩))
  rw [if_neg (by simp [hssl])]
  rcases hcall : (E.write w.engine data).run w.channel with ⟨⟨rc, e'⟩, ch'⟩
  simp only [sslWrite_eq hcall]
  cases rc with
  | took n =>
      rcases sent_cases (O := O) (Flow.take n data { w with engine := e', channel := ch' }) hssl with
        ⟨k, ch, hsome, hsent⟩ | ⟨-, hne, hover⟩
      · refine .inl ⟨_, ?_, .took hssl hdata hcall hsome⟩
        simp only [hsent]
        rfl
      · refine .inr (.inr (.inr ?_))
        dsimp only
        split
        · exact ⟨_, _, rfl, hwrite, .inr hover⟩
        · rw [if_pos (by omega)]
          exact ⟨_, _, rfl, hinval, .inr hover⟩
  | wantWrite =>
      rcases sent_cases (O := O) { w with engine := e', channel := ch' } hssl with
        ⟨k, ch, hsome, hsent⟩ | ⟨-, hne, hover⟩
      · refine .inl ⟨_, ?_, .wantWrite hssl hdata hcall hsome⟩
        simp only [hsent]
        rfl
      · refine .inr (.inr (.inr ?_))
        dsimp only
        split
        · exact ⟨_, _, rfl, hwrite, .inr hover⟩
        · rw [if_pos (by omega)]
          exact ⟨_, _, rfl, hinval, .inr hover⟩
  | wantRead =>
      dsimp only [tlsParkWrite]
      split
      · split
        · exact .inr (.inr (.inl ⟨_, rfl, rfl, rfl⟩))
        · exact .inr (.inr (.inr ⟨_, _, rfl, hnomem, .inl rfl⟩))
      · exact .inr (.inr (.inl ⟨_, rfl, rfl, rfl⟩))
  | failed => exact .inr (.inr (.inr ⟨_, _, rfl, hwrite, .inr (.inl rfl)⟩))

theorem flushTurn_goes {s s' : Flow ε κ × Bytes} (h : Goes E O s s') : flushTurn E O s = .inr s' := by
  cases h with
  | @took w data n e' ch' k' ch'' hssl hdata hcall hsent =>
      have hsend := tlsSendCipher_some (O := O)
        (w := Flow.take n data { w with engine := e', channel := ch' }) hssl hsent
      unfold flushTurn
      rw [if_neg hdata, if_neg (by simp [hssl])]
      simp only [sslWrite_eq hcall, hsend]
      rfl
  | @wantWrite w data e' ch' k' ch'' hssl hdata hcall hsent =>
      have hsend := tlsSendCipher_some (O := O) (w := { w with engine := e', channel := ch' }) hssl hsent
      unfold flushTurn
      rw [if_neg hdata, if_neg (by simp [hssl])]
      simp only [sslWrite_eq hcall, hsend]
      rfl

theorem flushTurn_waits {s s' : Flow ε κ × Bytes} (h : Waits E O s s') : flushTurn E O s = .inr s' := by
  cases h with
  | @mk w data e' ch' k' ch'' hssl hdata hcall hsent =>
      have hsend := tlsSendCipher_some (O := O) (w := { w with engine := e', channel := ch' }) hssl hsent
      unfold flushTurn
      rw [if_neg hdata, if_neg (by simp [hssl])]
      simp only [sslWrite_eq hcall, hsend]
      rfl

-- What a turn of tls_flush_pending does.
theorem flushTurn_cases (s : Flow ε κ × Bytes) :
    (∃ s', Goes E O s s') ∨ (∃ s', Waits E O s s') ∨ (s.2 = [] ∧ flushTurn E O s = .inl s.1) ∨
    (∃ w', flushTurn E O s = .inl w' ∧ w'.Over) := by
  obtain ⟨w, data⟩ := s
  by_cases hdata : data = []
  · exact .inr (.inr (.inl ⟨hdata, if_pos hdata⟩))
  by_cases hssl : w.ssl = true
  swap
  · refine .inr (.inr (.inr ⟨w, ?_, .inl (by simpa using hssl)⟩))
    unfold flushTurn
    rw [if_neg hdata, if_pos (by simpa using hssl)]
  rcases hcall : (E.write w.engine data).run w.channel with ⟨⟨rc, e'⟩, ch'⟩
  cases rc with
  | took n =>
      rcases sent_cases (O := O) (Flow.take n data { w with engine := e', channel := ch' }) hssl with
        ⟨k, ch, hsome, -⟩ | ⟨-, hne, hover⟩
      · exact .inl ⟨_, .took hssl hdata hcall hsome⟩
      · refine .inr (.inr (.inr ⟨_, ?_, hover⟩))
        unfold flushTurn
        rw [if_neg hdata, if_neg (by simp [hssl])]
        simp only [sslWrite_eq hcall, hne, ne_eq, not_false_eq_true, if_true]
  | wantWrite =>
      rcases sent_cases (O := O) { w with engine := e', channel := ch' } hssl with
        ⟨k, ch, hsome, -⟩ | ⟨-, hne, hover⟩
      · exact .inl ⟨_, .wantWrite hssl hdata hcall hsome⟩
      · refine .inr (.inr (.inr ⟨_, ?_, hover⟩))
        unfold flushTurn
        rw [if_neg hdata, if_neg (by simp [hssl])]
        simp only [sslWrite_eq hcall, hne, ne_eq, not_false_eq_true, if_true]
  | wantRead =>
      rcases sent_cases (O := O) { w with engine := e', channel := ch' } hssl with
        ⟨k, ch, hsome, -⟩ | ⟨-, hne, hover⟩
      · exact .inr (.inl ⟨_, .mk hssl hdata hcall hsome⟩)
      · refine .inr (.inr (.inr ⟨_, ?_, hover⟩))
        unfold flushTurn
        rw [if_neg hdata, if_neg (by simp [hssl])]
        simp only [sslWrite_eq hcall, hne, ne_eq, not_false_eq_true, if_true]
  | failed =>
      refine .inr (.inr (.inr ⟨tlsFail Err.write { w with engine := e', channel := ch' }, ?_, .inl rfl⟩))
      unfold flushTurn
      rw [if_neg hdata, if_neg (by simp [hssl])]
      simp only [sslWrite_eq hcall]

-- ---- progress ----

section

variable {owes : ε → Bytes → Nat} {waits : ε → Inbox → Bytes → Prop}

-- The plaintext that is left, then the ciphertext that it still makes.
def work (owes : ε → Bytes → Nat) (s : Flow ε κ × Bytes) : Nat × Nat :=
  (s.2.length, owes s.1.engine s.2 + s.1.channel.out.length)

def Less (owes : ε → Bytes → Nat) (s s' : Flow ε κ × Bytes) : Prop :=
  Prod.Lex (· < ·) (· < ·) (work owes s) (work owes s')

theorem less_wellFounded (owes : ε → Bytes → Nat) : WellFounded (Less (κ := κ) owes) :=
  InvImage.wf _ (WellFounded.prod_lex Nat.lt_wfRel.wf Nat.lt_wfRel.wf)

theorem emptied_eq {k k' : κ} {ch ch' : Channel} (h : O.emptied k ch = some (k', ch')) :
    ch' = { ch with out := [] } := by
  unfold Outside.emptied at h
  dsimp only at h
  split at h
  · cases h
    rfl
  · cases h

theorem Goes.less (hE : E.Writes owes waits) {s s' : Flow ε κ × Bytes} (h : Goes E O s s') :
    Less owes s' s := by
  cases h with
  | took hssl hdata hcall hsent =>
      obtain ⟨hpos, hle⟩ := hE.took hcall
      refine .left _ _ ?_
      dsimp only
      rw [List.length_drop]
      omega
  | wantWrite hssl hdata hcall hsent =>
      obtain ⟨hfull, howes⟩ := hE.full hcall
      refine .right _ ?_
      have hchannel : 0 < channelOut := by decide
      simp only [called, emptied_eq hsent, List.length_nil]
      omega

-- Nothing is lost, in order.
theorem Goes.account {s s' : Flow ε κ × Bytes} (h : Goes E O s s') :
    s'.1.taken ++ s'.2 = s.1.taken ++ s.2 ∧ s'.1.pending = s.1.pending ∧ s'.1.ssl = s.1.ssl := by
  cases h with
  | took hssl hdata hcall hsent =>
      refine ⟨?_, rfl, rfl⟩
      simp only [called, take, List.append_assoc, List.take_append_drop]
  | wantWrite hssl hdata hcall hsent => exact ⟨rfl, rfl, rfl⟩

-- sevent_tls_conn_write returns; 0 says that the rest is parked, behind what has been taken.
theorem writeLoop_ends (hE : E.Writes owes waits) (s : Flow ε κ × Bytes) (hs : s.1.pending = []) :
    ∃ r, While.Ends (writeTurn E O) s r ∧ (r.1 = 0 → r.2.taken ++ r.2.pending = s.1.taken ++ s.2) ∧
      (r.1 ≠ 0 → r.1 = Err.nomem ∨ r.2.Over) := by
  have hnext : ∀ s s', writeTurn E O s = .inr s' → Goes E O s s' := by
    intro s s' hturn
    rcases writeTurn_cases (E := E) (O := O) s with ⟨s'', h, hgoes⟩ | ⟨-, h⟩ | ⟨w', h, -⟩ | ⟨rc, w', h, -⟩
    · exact Sum.inr.inj (h.symm.trans hturn) ▸ hgoes
    · cases h.symm.trans hturn
    · cases h.symm.trans hturn
    · cases h.symm.trans hturn
  obtain ⟨r, hr⟩ := While.Ends.of_wellFounded (I := fun _ => True) (less_wellFounded owes)
    (fun s s' _ hturn => ⟨trivial, (hnext s s' hturn).less hE⟩) (trivial : (fun _ => True) s)
  refine ⟨r, hr, ?_⟩
  refine While.Ends.rule (Q := fun s r => s.1.pending = [] →
    (r.1 = 0 → r.2.taken ++ r.2.pending = s.1.taken ++ s.2) ∧ (r.1 ≠ 0 → r.1 = Err.nomem ∨ r.2.Over))
    ?_ ?_ hr hs
  · intro s r hturn hpending
    rcases writeTurn_cases (E := E) (O := O) s with ⟨s'', h, -⟩ | ⟨hdata, h⟩ | ⟨w', h, htaken, hparked⟩ |
      ⟨rc, w', h, hrc, hover⟩
    · cases h.symm.trans hturn
    · cases h.symm.trans hturn
      exact ⟨fun _ => by rw [hpending, hdata], fun hrc => absurd rfl hrc⟩
    · cases h.symm.trans hturn
      exact ⟨fun _ => by rw [htaken, hparked], fun hrc => absurd rfl hrc⟩
    · cases h.symm.trans hturn
      exact ⟨fun hzero => absurd hzero hrc, fun _ => hover⟩
  · intro s s' r hturn ih hpending
    obtain ⟨haccount, hsame, -⟩ := (hnext s s' hturn).account
    rw [← haccount]
    exact ih (hsame.trans hpending)

-- ---- tls_flush_pending ----

theorem Goes.asks {s s' : Flow ε κ × Bytes} (h : Goes E O s s')
    (hasks : AsksInput E O s'.1.engine s'.1.channel s'.1.outside s'.2) :
    AsksInput E O s.1.engine s.1.channel s.1.outside s.2 := by
  cases h with
  | took hssl hdata hcall hsent => exact .took hdata hcall hsent hasks
  | wantWrite hssl hdata hcall hsent => exact .wantWrite hdata hcall hsent hasks

theorem Waits.asks {s s' : Flow ε κ × Bytes} (h : Waits E O s s') :
    s.1.ssl = true ∧ AsksInput E O s.1.engine s.1.channel s.1.outside s.2 := by
  cases h with
  | mk hssl hdata hcall hsent => exact ⟨hssl, .wantRead hdata hcall hsent⟩

theorem flushTurn_next {s s' : Flow ε κ × Bytes} (hturn : flushTurn E O s = .inr s') :
    Goes E O s s' ∨ Waits E O s s' := by
  rcases flushTurn_cases (E := E) (O := O) s with ⟨s'', h⟩ | ⟨s'', h⟩ | ⟨-, h⟩ | ⟨w', h, -⟩
  · exact .inl (Sum.inr.inj ((flushTurn_goes h).symm.trans hturn) ▸ h)
  · exact .inr (Sum.inr.inj ((flushTurn_waits h).symm.trans hturn) ▸ h)
  · cases h.symm.trans hturn
  · cases h.symm.trans hturn

-- What the loop ends with: a round that is over, or all of the plaintext taken.
theorem flushLoop_taken {s : Flow ε κ × Bytes} {w' : Flow ε κ} (h : While.Ends (flushTurn E O) s w') :
    ¬ w'.Over → w'.taken = s.1.taken ++ s.2 := by
  refine While.Ends.rule (Q := fun s w' => ¬ Over w' → w'.taken = s.1.taken ++ s.2) ?_ ?_ h
  · intro s w' hturn hlive
    rcases flushTurn_cases (E := E) (O := O) s with ⟨s'', h⟩ | ⟨s'', h⟩ | ⟨hdata, h⟩ | ⟨w'', h, hover⟩
    · cases (flushTurn_goes h).symm.trans hturn
    · cases (flushTurn_waits h).symm.trans hturn
    · cases h.symm.trans hturn
      rw [hdata, List.append_nil]
    · cases h.symm.trans hturn
      exact absurd hover hlive
  · intro s s' w' hturn ih hlive
    rw [ih hlive]
    rcases flushTurn_next hturn with hgoes | hwaits
    · exact hgoes.account.1
    · cases hwaits with
      | mk hssl hdata hcall hsent => rfl

theorem flushLoop_ends (hE : E.Writes owes waits) {s : Flow ε κ × Bytes}
    (hs : ¬ (s.1.ssl = true ∧ AsksInput E O s.1.engine s.1.channel s.1.outside s.2)) :
    ∃ w', While.Ends (flushTurn E O) s w' := by
  refine While.Ends.of_wellFounded
    (I := fun s => ¬ (s.1.ssl = true ∧ AsksInput E O s.1.engine s.1.channel s.1.outside s.2))
    (less_wellFounded owes) (fun s s' hI hturn => ?_) hs
  rcases flushTurn_next hturn with hgoes | hwaits
  · refine ⟨fun ⟨hssl, hasks⟩ => hI ⟨?_, hgoes.asks hasks⟩, hgoes.less hE⟩
    exact hgoes.account.2.2.symm.trans hssl
  · exact absurd hwaits.asks hI

theorem emptied_nil (k : κ) (inbox : Inbox) : O.emptied k ⟨inbox, []⟩ = some (k, ⟨inbox, []⟩) := by
  simp [Outside.emptied, sendCipherLoop]

-- The engine waits for the peer, and there is nothing to send.
theorem flushLoop_spins (hE : E.Writes owes waits) {w : Flow ε κ} {data : Bytes} (hssl : w.ssl = true)
    (hdata : data ≠ []) (hwaits : waits w.engine w.channel.inbox data) (hout : w.channel.out = []) :
    While.Diverges (flushTurn E O) (w, data) := by
  refine While.Diverges.of_invariant
    (I := fun s => s.1.ssl = true ∧ s.2 ≠ [] ∧ waits s.1.engine s.1.channel.inbox s.2 ∧ s.1.channel.out = [])
    ?_ ⟨hssl, hdata, hwaits, hout⟩
  rintro ⟨w, data⟩ ⟨hssl, hdata, hwaits, hout⟩
  obtain ⟨e', inbox', hagain⟩ := hE.again hwaits []
  have hcall : (E.write w.engine data).run w.channel = ((.wantRead, e'), ⟨inbox', []⟩) := by
    rw [← hagain, ← hout]
  exact ⟨_, flushTurn_waits (.mk hssl hdata hcall (emptied_nil _ _)), hssl, hdata, hE.wantRead hcall, rfl⟩

theorem flushLoop_asks (hE : E.Writes owes waits) {e : ε} {ch : Channel} {k : κ} {data : Bytes}
    (h : AsksInput E O e ch k data) {w : Flow ε κ} (hssl : w.ssl = true) (he : w.engine = e)
    (hch : w.channel = ch) (hk : w.outside = k) : While.Diverges (flushTurn E O) (w, data) := by
  induction h generalizing w with
  | @wantRead e ch k data e' ch' r hdata hcall hsent =>
      subst he hch hk
      obtain ⟨k', ch''⟩ := r
      have hempty : ch'' = { ch' with out := [] } := emptied_eq hsent
      refine While.Diverges.of_next (flushTurn_waits (.mk hssl hdata hcall hsent)) ?_
      refine flushLoop_spins hE hssl hdata ?_ (congrArg Channel.out hempty)
      have hinbox : ch''.inbox = ch'.inbox := by rw [hempty]
      rw [called, hinbox]
      exact hE.wantRead hcall
  | took hdata hcall hsent _ ih =>
      subst he hch hk
      exact While.Diverges.of_next (flushTurn_goes (.took hssl hdata hcall hsent)) (ih hssl rfl rfl rfl)
  | wantWrite hdata hcall hsent _ ih =>
      subst he hch hk
      exact While.Diverges.of_next (flushTurn_goes (.wantWrite hssl hdata hcall hsent)) (ih hssl rfl rfl rfl)

end

theorem asks_ne_nil {e : ε} {ch : Channel} {k : κ} {data : Bytes} (h : AsksInput E O e ch k data) :
    data ≠ [] := by
  cases h with
  | wantRead hdata => exact hdata
  | took hdata => exact hdata
  | wantWrite hdata => exact hdata

-- sevent_tls_conn_write returns for every engine. tls_flush_pending returns, and has lost nothing
-- while the connection lives, unless the engine comes to wait for the peer in it.
theorem tls_writing_ends (owes : ε → Bytes → Nat) (waits : ε → Inbox → Bytes → Prop)
    (hE : E.Writes owes waits) (w : Flow ε κ) :
    (∀ data, ∃ fuel rc w', w.write E O fuel data = some (rc, w') ∧
      (rc = 0 → w'.taken ++ w'.pending = w.taken ++ data) ∧
      (rc ≠ 0 → w' = w ∨ rc = Err.nomem ∨ w'.Over)) ∧
    ((∃ fuel w', w.tlsFlushPending E O fuel = some w' ∧
      (¬ w'.Over → w'.taken ++ w'.pending = w.taken ++ w.pending)) ↔
        ¬ (w.ssl = true ∧ AsksInput E O w.engine w.channel w.outside w.pending)) := by
  refine ⟨fun data => ?_, ?_⟩
  · have hinval : Err.inval ≠ 0 := by decide
    unfold write
    split
    · exact ⟨0, _, _, rfl, fun h => absurd h hinval, fun _ => .inl rfl⟩
    split
    · exact ⟨0, _, _, rfl, fun h => absurd h hinval, fun _ => .inl rfl⟩
    · rename_i hpending
      obtain ⟨⟨rc, w'⟩, ⟨fuel, hrun⟩, hzero, hrest⟩ :=
        writeLoop_ends (O := O) hE (w, data) (not_not.mp hpending)
      exact ⟨fuel, rc, w', hrun, hzero, fun hne => .inr (hrest hne)⟩
  · unfold tlsFlushPending
    by_cases hpending : w.pending = []
    · refine iff_of_true ⟨0, w, if_pos hpending, fun _ => rfl⟩ ?_
      rintro ⟨-, hasks⟩
      exact asks_ne_nil hasks hpending
    simp only [if_neg hpending]
    constructor
    · rintro ⟨fuel, w', hrun, -⟩ ⟨hssl, hasks⟩
      have hspins := flushLoop_asks hE hasks hssl rfl rfl rfl fuel
      rw [hspins] at hrun
      cases hrun
    · intro hasks
      obtain ⟨w', fuel, hrun⟩ := flushLoop_ends hE (s := (w, w.pending)) hasks
      refine ⟨fuel, { w' with pending := [] }, by rw [hrun]; rfl, fun hlive => ?_⟩
      have htaken := flushLoop_taken ⟨fuel, hrun⟩ hlive
      rw [List.append_nil]
      exact htaken

-- An engine that has to read from its peer before it takes any plaintext.
def rekeying : Engine Unit where
  handshake _ := .recv 5 fun b => .answer (if b.isSome then .done else .wantRead, ())
  read _ len := .recv len fun b => .answer (b.elim .want .data, ())
  write _ data :=
    .recv 5 fun b => .answer (if b = none then .wantRead else if data = [] then .failed else .took data.length, ())

def openTcp : Outside Unit where
  tcpWrite _ _ := (.ok, ())
  malloc _ := true
  onOpen _ := ([], ())
  onData _ _ := ([], ())

def shaken (inbox : Inbox) (pending : Bytes) : Flow Unit Unit :=
  { ssl := true, handshakeDone := true, recvCap := 4096, channel := ⟨inbox, []⟩, pending := pending
    pendingCap := pending.length, engine := (), outside := (), taken := [], tcpOver := false, errors := [] }

theorem rekeying_run (data : Bytes) (ch : Channel) :
    (rekeying.write () data).run ch =
      ((if (ch.inbox.recv 5).1 = none then .wantRead
        else if data = [] then .failed else .took data.length, ()),
        { ch with inbox := (ch.inbox.recv 5).2 }) := rfl

theorem rekeying_writes : rekeying.Writes (fun _ _ => 0) (fun _ inbox _ => (inbox.recv 5).1 = none) := by
  constructor
  · intro e ch data n e' ch' h
    rw [rekeying_run] at h
    have hrc := congrArg (fun r => r.1.1) h
    dsimp only at hrc
    split at hrc
    · cases hrc
    · split at hrc
      · cases hrc
      · rename_i hdata
        cases hrc
        exact ⟨List.length_pos_iff.mpr hdata, Nat.le_refl _⟩
  · intro e ch data e' ch' h
    rw [rekeying_run] at h
    have hrc := congrArg (fun r => r.1.1) h
    dsimp only at hrc
    split at hrc
    · cases hrc
    · split at hrc <;> cases hrc
  · intro e ch data e' ch' h
    rw [rekeying_run] at h
    have hrc := congrArg (fun r => r.1.1) h
    have hch := congrArg (fun r => r.2.inbox) h
    dsimp only at hrc hch
    split at hrc
    · rename_i hnone
      rw [← hch, Inbox.recv_none hnone]
      exact hnone
    · split at hrc <;> cases hrc
  · intro e inbox data h out
    refine ⟨(), inbox, ?_⟩
    rw [rekeying_run, if_pos h, Inbox.recv_none h]

-- Without a byte from the peer the data is parked. With one that is no more than a part of a record
-- tls_flush_pending never returns.
theorem flush_pending_spins :
    rekeying.Writes (fun _ _ => 0) (fun _ inbox _ => (inbox.recv 5).1 = none) ∧
      (shaken (.pair []) []).write rekeying openTcp 1 [0x68, 0x69] =
        some (0, shaken (.pair []) [0x68, 0x69]) ∧
      ∀ fuel, (shaken (.pair []) [0x68, 0x69]).tcpCbData rekeying openTcp fuel [0x17] = none := by
  refine ⟨rekeying_writes, rfl, fun fuel => ?_⟩
  have hread : ∀ n, (shaken (.pair [0x17]) [0x68, 0x69]).tlsReadPlain rekeying openTcp (n + 2) =
      some (shaken (.pair []) [0x68, 0x69]) := fun n => rfl
  have hspins : While.Diverges (flushTurn rekeying openTcp)
      (shaken (.pair []) [0x68, 0x69], [0x68, 0x69]) :=
    flushLoop_spins rekeying_writes rfl (List.cons_ne_nil _ _) rfl rfl
  have hfeed : ∀ n, (shaken (.pair []) [0x68, 0x69]).tcpCbData rekeying openTcp n [0x17] =
      ((shaken (.pair [0x17]) [0x68, 0x69]).tlsReadPlain rekeying openTcp n).bind
        (tlsFlushPending rekeying openTcp n) := fun n => rfl
  rw [hfeed]
  obtain _ | _ | n := fuel
  · rfl
  · rfl
  · rw [hread]
    exact congrArg (Option.map fun w => { w with pending := [] }) (hspins (n + 2))

-- With a record in the channel the engine takes the plaintext.
theorem tls_writing_ends_fed :
    ∃ fuel w', (shaken (.pair [0x17, 3, 3, 0, 1]) [0x68, 0x69]).tlsFlushPending rekeying openTcp fuel = some w' ∧
      (¬ w'.Over → w'.taken ++ w'.pending = [0x68, 0x69]) := by
  obtain ⟨-, hflush⟩ := tls_writing_ends (E := rekeying) (O := openTcp) _ _ rekeying_writes
    (shaken (.pair [0x17, 3, 3, 0, 1]) [0x68, 0x69])
  refine hflush.mpr ?_
  rintro ⟨-, hasks⟩
  cases hasks with
  | wantRead hdata hcall hsent => cases hcall
  | took hdata hcall hsent hrest =>
      cases hcall
      exact asks_ne_nil hrest rfl
  | wantWrite hdata hcall hsent hrest => cases hcall

end Flow

end Sevent.Tls
