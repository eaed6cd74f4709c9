import Sevent.Http.Stability
import Sevent.Ws.Room

-- The receive buffer over whole runs: on a connection in OPEN without permessage-deflate, the
-- next push always fits.
namespace Sevent.Ws

def recvMin : Nat := 1024
def recvDefault : Nat := 4096

-- The capacity of ws_conn_alloc_bufs.
def allocCap (bufsz : Nat) : Nat := max (if bufsz = 0 then recvDefault else bufsz) recvMin

-- The capacity that sevent_ws_upgrade makes of the one of the HTTP connection.
def upgradeCap (rcap : Nat) : Nat := max ((if rcap = 0 then recvDefault else rcap) * 2) (recvMin * 2)

-- ---- the request that a push completes ----

theorem parseRequest_wait {r : Bytes} (h : (parseRequest r).1 = 0) :
    r.length < 16 ∨ Http.parse r = .more := by
  unfold parseRequest at h
  split at h
  · exact .inl ‹_›
  split at h
  · cases h
  · exact .inr ‹_›
  · rename_i m hparse
    split at h
    · cases h
    · have := Http.parse_consumed_pos hparse
      dsimp only at h
      omega

-- It ends within the push.
theorem parseRequest_skip {r d : Bytes} (hwait : (parseRequest r).1 = 0)
    (hpos : 0 < (parseRequest (r ++ d)).1) (hstatus : (parseRequest (r ++ d)).2.status = 0) :
    r.length < (parseRequest (r ++ d)).1.toNat := by
  obtain ⟨m, hparse, hreq⟩ := parseRequest_complete hpos
  rw [hreq] at hstatus ⊢
  by_contra hle
  rw [Int.toNat_natCast, Nat.not_lt] at hle
  -- else the request had been complete before
  have hbefore : Http.parse r = .complete m := by
    have htake := Http.parse_take_consumed hparse
    rw [List.take_append_of_le_length hle] at htake
    rw [← List.take_append_drop m.consumed r]
    exact Http.parse_complete_append htake _
  obtain ⟨v, hv, hkey, -⟩ := checkRequest_taken hstatus
  have hvalue := Http.findHeader_length hv
  have hblock := (Http.parse_inside hbefore).headers
  rcases parseRequest_wait hwait with hshort | hmore
  · omega
  · cases hmore.symm.trans hbefore

namespace Conn

open Sevent.Stream (WriteRes)

variable {σ δ : Type} {env : Env σ δ}

-- ---- what the calls of the user and the callbacks leave ----

structure Keeps (c c' : Conn σ δ) : Prop extends Onward c c', SameRx c c'

theorem Keeps.refl (c : Conn σ δ) : Keeps c c := ⟨.refl c, .refl c⟩

theorem Keeps.trans {a b c : Conn σ δ} (h : Keeps a b) (h' : Keeps b c) : Keeps a c :=
  ⟨h.toOnward.trans h'.toOnward, h.toSameRx.trans h'.toSameRx⟩

theorem Keeps.emit (c : Conn σ δ) (e : Event) : Keeps c (c.emit e) :=
  ⟨.emit c e, by constructor <;> rfl⟩

theorem Moves.keeps {c c' : Conn σ δ} (hm : Moves env c c') : Keeps c c' := ⟨hm.onward, hm.sameRx⟩

variable (env) in
theorem callback_keeps (cb : Callback) (e : Event) (c : Conn σ δ) :
    Keeps c (callback env cb e c) := by
  cases cb with
  | none => exact .refl c
  | some cb => exact (Keeps.emit c e).trans (Moves.keeps (callback_moves env cb e c))

theorem streamWrite_keeps (ev : WriteRes → Event) (c : Conn σ δ) :
    Keeps c (streamWrite env (notify env) ev c).2 := by
  by_cases hs : c.stream = .opened
  · rw [streamWrite_eq env _ ev c hs]
    have hwritten : Keeps c (c.written (ev (env.write c.log)) (env.write c.log)) :=
      ⟨⟨.inl rfl, written_opening, id, id, List.prefix_append _ _⟩, by constructor <;> rfl⟩
    exact hwritten.trans (Moves.keeps (settle_moves (notify_moves env) _ _))
  · rw [streamWrite, if_pos hs]
    exact .refl c

theorem registerPing_keeps (c : Conn σ δ) : Keeps c (c.registerPing env) := by
  unfold registerPing
  split
  · exact ⟨⟨.inl rfl, id, id, id, List.prefix_append _ _⟩, by constructor <;> rfl⟩
  · exact .refl c

theorem Keeps.plain {c c' : Conn σ δ} (h : Keeps c c') (hdf : c'.deflate = none) :
    c.deflate = none := by
  have hsame := h.inflate
  rw [hdf] at hsame
  exact Option.map_eq_none_iff.mp hsame.symm

-- ---- a context of permessage-deflate stays ----

theorem Act.deflate {c c' : Conn σ δ} (ha : Act env c c') (hdf : c'.deflate = none) :
    c.deflate = none := by
  cases ha with
  | move hm => exact (Moves.keeps (.single hm)).plain hdf
  | quiet hs hr hf =>
      by_contra hsome
      have hkept := hs.deflate (Option.isSome_iff_ne_none.mpr hsome)
      rw [hdf] at hkept
      cases hkept
  | _ => exact hdf

theorem Acts.deflate {c c' : Conn σ δ} (ha : Acts env c c') (hdf : c'.deflate = none) :
    c.deflate = none := by
  induction ha with
  | refl => exact hdf
  | tail _ hstep ih => exact ih (hstep.deflate hdf)

theorem Stepped.deflate {c c' : Conn σ δ} {i : Input} (h : Stepped env c i c')
    (hdf : c'.deflate = none) : c.deflate = none := by
  cases h with
  | acts ha => exact Acts.deflate ha hdf
  | frames c₁ ha hl hearly hb =>
      have hmid : (c₁.emit .frameData).deflate = none := Acts.deflate hb hdf
      exact Acts.deflate ha hmid

-- ---- the invariant ----

-- No frame has been read.
structure Blank (c : Conn σ δ) : Prop where
  compressed : c.msg.compressed = false
  remaining : c.streamRemaining = 0

theorem Blank.keeps {c c' : Conn σ δ} (h : Blank c) (hk : Keeps c c') : Blank c' :=
  ⟨by rw [hk.msg, h.compressed], by rw [hk.remaining, h.remaining]⟩

structure Roomy (env : Env σ δ) (c : Conn σ δ) : Prop where
  compressed : c.msg.compressed = false
  streaming : c.state ≠ .closed → 0 < c.streamRemaining → c.msg.mode = .stream
  -- before the answer to the handshake
  unread : c.state = .handshake ∨ c.stream = .opening → c.streamRemaining = 0
  empty : c.stream = .opening → c.recv = []
  waiting : c.state = .handshake → env.isClient = false → (parseRequest c.recv).1 = 0
  opened : c.state = .opened → Bounded env c

theorem Roomy.keeps {c c' : Conn σ δ} (h : Roomy env c) (hk : Keeps c c') : Roomy env c' := by
  have hsame : ∀ s : State, s ≠ .closing → s ≠ .closed → c'.state = s → c.state = s := by
    intro s hclosing hclosed hs
    rcases hk.state with hst | ⟨-, hst⟩ | hst
    · exact hst.symm.trans hs
    · exact absurd (hs.symm.trans hst) hclosing
    · exact absurd (hs.symm.trans hst) hclosed
  refine ⟨by rw [hk.msg, h.compressed], fun hs => ?_, fun hs => ?_, fun hs => ?_, fun hs hserver => ?_,
    fun hs => ?_⟩
  · rw [hk.remaining, hk.msg]
    exact h.streaming fun hc => hs (hk.toOnward.closed hc)
  · rw [hk.remaining]
    exact h.unread (hs.imp (hsame _ (by decide) (by decide)) hk.stream)
  · rw [hk.recv]
    exact h.empty (hk.stream hs)
  · rw [hk.recv]
    exact h.waiting (hsame _ (by decide) (by decide) hs) hserver
  · have hb := h.opened (hsame _ (by decide) (by decide) hs)
    refine ⟨by rw [hk.recv]; exact hb.recv_lt, ?_⟩
    rw [hk.remaining, hk.msg, hk.recv]
    exact hb.streaming

-- The handshake has failed.
theorem Blank.roomy {c : Conn σ δ} (h : Blank c) (hs : c.state = .closing ∨ c.state = .closed)
    (ho : c.stream ≠ .opening) : Roomy env c := by
  have hrem := h.remaining
  refine ⟨h.compressed, fun _ hpos => by omega, fun _ => hrem, fun h => absurd h ho, fun hst => ?_,
    fun hst => ?_⟩
  · rcases hs with hs | hs <;> cases hs.symm.trans hst
  · rcases hs with hs | hs <;> cases hs.symm.trans hst

-- What has been read since is read as frames.
theorem Roomy.of_frames {c c' : Conn σ δ} (hon : Onward c c') (hs : c.state ≠ .handshake)
    (ho : c.stream ≠ .opening) (hcomp : c'.msg.compressed = false)
    (hend : c'.state = .closed ∨ Bounded env c') : Roomy env c' := by
  have hstate : c'.state ≠ .handshake := by
    rcases hon.state with hst | ⟨-, hst⟩ | hst
    · rwa [hst]
    · simp [hst]
    · simp [hst]
  have hstream : c'.stream ≠ .opening := fun h => ho (hon.stream h)
  refine ⟨hcomp, fun hopen hpos => ?_, fun h => h.elim (absurd · hstate) (absurd · hstream),
    fun h => absurd h hstream, fun h => absurd h hstate, fun hopened => ?_⟩
  · rcases hend with hc | hb
    · exact absurd hc hopen
    · exact (hb.streaming hpos).1
  · rcases hend with hc | hb
    · cases hc.symm.trans hopened
    · exact hb

-- As long as nothing has been agreed on.
def Kept (env : Env σ δ) (c : Conn σ δ) : Prop := c.deflate = none → Roomy env c

-- ---- the handshake ----

theorem Blank.ended {c c' : Conn σ δ} (h : Blank c) (hk : Keeps c c') (ho : c.stream ≠ .opening)
    (hs : c'.state = .closed) : Kept env c' :=
  fun _ => (h.keeps hk).roomy (.inr hs) fun h => ho (hk.stream h)

theorem fatal_keeps (err : Int) {c : Conn σ δ} (hw : Wf env c) :
    Keeps c (fatal env (notify env) err c) :=
  Moves.keeps (fatal_moves (notify_moves env) err c fun _ => hw.opened)

theorem fatal_kept (err : Int) {c : Conn σ δ} (hw : Wf env c) (h : Blank c) (hh : Honest c)
    (ho : c.stream ≠ .opening) : Kept env (fatal env (notify env) err c) :=
  h.ended (fatal_keeps err hw) ho (fatal_over err hh)

theorem openUp_kept (hcap : recvMin ≤ env.recvCap) (skip : Nat) {c : Conn σ δ} (hw : Wf env c)
    (ho : Openable env c) (h : Blank c)
    (hrest : c.destroyed = true → c.recv.length - skip < env.recvCap / 2) :
    Kept env (openUp env skip c) := by
  intro hplain
  have hdf : c.deflate = none := Acts.deflate (openUp_acts skip c hw ho) hplain
  clear hplain
  unfold openUp
  extract_lets c₁ c₂ c₃
  have hk₂ : Keeps c₁ c₂ := (callback_keeps env env.onOpen .onOpen c₁).trans (.emit _ _)
  have hrecv₁ : c₁.recv = c.recv.drop skip := rfl
  have hblank₁ : Blank c₁ := ⟨h.compressed, h.remaining⟩
  have hs₁ : c₁.state ≠ .handshake := by simp [c₁, setState]
  split
  · rename_i hd
    refine .of_frames hk₂.toOnward hs₁ ho.stream (hblank₁.keeps hk₂).compressed ?_
    -- destroyed in on_open, or before it while the answer was written
    by_cases hd₁ : c.destroyed = true
    · have hrem := (hblank₁.keeps hk₂).remaining
      refine .inr ⟨?_, fun hpos => by omega⟩
      rw [hk₂.recv, hrecv₁, List.length_drop]
      exact hrest hd₁
    · exact .inl (hk₂.honest (fun hd => absurd hd hd₁) hd)
  rename_i hd
  have hk₃ : Keeps c₁ c₃ := hk₂.trans (registerPing_keeps c₂)
  have hblank₃ := hblank₁.keeps hk₃
  split
  · rename_i hnil
    have hrem := hblank₃.remaining
    exact .of_frames hk₃.toOnward hs₁ ho.stream hblank₃.compressed
      (.inr (.of_empty hcap hnil fun hpos => by omega))
  · have hopened : Opened c₁.log := by simp [Opened, c₁, setState]
    have hhonest : Honest c₃ := (registerPing_keeps c₂).honest fun hd' => absurd hd' hd
    have hfit : c₃.recv.length ≤ env.recvCap := by
      have hle := hw.recv_le
      rw [hk₃.recv, hrecv₁, List.length_drop]
      omega
    have hloop := processFrames_ends hcap c₃.recv.length hhonest (.inl (hopened.mono hk₃.log))
      (hk₃.deflate hdf) hblank₃.compressed hblank₃.remaining hfit le_rfl
    have hframes : runFrames env c₃ = processFrames env c₃.recv.length c₃ := rfl
    rw [hframes]
    generalize processFrames env c₃.recv.length c₃ = r at hloop
    obtain ⟨err, c₄⟩ := r
    have hon : Onward c₁ c₄ := hk₃.toOnward.trans hloop.toOnward
    have hcomp : c₄.msg.compressed = false := hloop.compressed
    dsimp only
    split
    · have hk : Keeps c₄ (fatal env (notify env) err c₄) :=
        Moves.keeps (fatal_moves (notify_moves env) err c₄ fun _ _ => hopened.mono hon.log)
      refine .of_frames (hon.trans hk.toOnward) hs₁ ho.stream ?_
        (.inl (fatal_over err (hloop.honest hhonest)))
      rw [hk.msg]
      exact hcomp
    · refine .of_frames hon hs₁ ho.stream hcomp ?_
      rcases hloop.next with hpos | hc | ⟨-, hb⟩
      · contradiction
      · exact .inl hc
      · exact .inr hb

theorem serverHandshakeFail_kept (status : Nat) {c : Conn σ δ} (h : Blank c)
    (ho : c.stream ≠ .opening) : Kept env (serverHandshakeFail env status c) := by
  intro _
  unfold serverHandshakeFail
  extract_lets text extra c₁ c₂
  clear_value text extra
  have h₁ : Keeps c c₁ := by
    simp only [c₁]
    split
    · exact .refl c
    · exact streamWrite_keeps _ c
  clear_value c₁
  have hblank := h.keeps h₁
  have hroomy : Roomy env c₂ :=
    Blank.roomy ⟨hblank.compressed, hblank.remaining⟩ (.inl rfl) fun hs => ho (h₁.stream hs)
  exact hroomy.keeps (callback_keeps env _ _ c₂)

theorem serverEstablish_kept (hcap : recvMin ≤ env.recvCap) (key : Bytes) (skip : Nat)
    (deflateOffered clientNct : Bool) {c : Conn σ δ} (hw : Wf env c) (hf : c.Fresh)
    (hs : c.stream = .opened) (hserver : env.isClient = false) (h : Blank c)
    (hrest : c.recv.length - skip < env.recvCap / 2) :
    Kept env (serverEstablish env key skip deflateOffered clientNct c) := by
  unfold serverEstablish
  dsimp only
  obtain ⟨d, l, hctx, h₁⟩ := confirmDeflate_acts (env.enableDeflate && deflateOffered)
    { DeflateParams.zero with
      clientNoContextTakeover := clientNct, compressionLevel := env.deflateLevel } c hw
  generalize (if (env.enableDeflate && deflateOffered) = true then
      createDeflate env
        { DeflateParams.zero with
          clientNoContextTakeover := clientNct, compressionLevel := env.deflateLevel } c
      else (false, c)) = r at hctx ⊢
  obtain ⟨confirm, c₁⟩ := r
  have hw₁ : Wf env { c with deflate := d, log := c.log ++ l } := Acts.wf h₁ hw
  have hfields : c₁.Fresh ∧ c₁.stream = .opened ∧ Blank c₁ ∧ c₁.recv = c.recv := by
    obtain rfl : c₁ = { c with deflate := d, log := c.log ++ l } := hctx
    exact ⟨hf, hs, ⟨h.compressed, h.remaining⟩, rfl⟩
  rw [← show c₁ = { c with deflate := d, log := c.log ++ l } from hctx] at hw₁
  obtain ⟨hf₁, hs₁, hblank, hrecv⟩ := hfields
  have hhonest : Honest c₁ := fun hd => by
    have hgone := hf₁.1
    simp [gone, hd] at hgone
  have ho₁ : c₁.stream ≠ .opening := by simp [hs₁]
  dsimp only
  split
  · exact fatal_kept _ hw₁ hblank hhonest ho₁
  · rename_i resp _
    have hk : Keeps c₁ (streamWrite env (notify env) (.upgradeOut resp) c₁).2 := streamWrite_keeps _ c₁
    have hw₂ := Acts.wf (reply_acts (.upgradeOut resp) c₁ hs₁ fun res =>
      Act.switching c₁ resp res hs₁ hf₁) hw₁
    split
    · exact fatal_kept _ hw₂ (hblank.keeps hk) (hk.honest hhonest) fun h => ho₁ (hk.stream h)
    · rename_i hrc
      refine openUp_kept hcap skip hw₂ (upgradeOut_openable resp hf₁ hs₁ hserver (by simpa using hrc))
        (hblank.keeps hk) fun _ => ?_
      rw [hk.recv, hrecv]
      exact hrest

-- What has arrived before the push does not complete the request.
theorem handshakeDataServer_kept (hcap : recvMin ≤ env.recvCap) {c : Conn σ δ} (hw : Wf env c)
    (hf : c.Fresh) (hs : c.stream = .opened) (hserver : env.isClient = false) (h : Blank c)
    (hrest : 0 < (parseRequest c.recv).1 → (parseRequest c.recv).2.status = 0 →
      c.recv.length - (parseRequest c.recv).1.toNat < env.recvCap / 2)
    (hwait : (parseRequest c.recv).1 = 0 → Roomy env c) :
    Kept env (handshakeDataServer env c) := by
  unfold handshakeDataServer
  generalize parseRequest c.recv = r at hrest hwait
  obtain ⟨ret, req⟩ := r
  dsimp only at hrest hwait ⊢
  split
  · exact fun _ => hwait ‹_›
  · rename_i hne
    split
    · exact serverHandshakeFail_kept _ h (by simp [hs])
    · rename_i hok
      refine serverEstablish_kept hcap _ _ _ _ hw hf hs hserver h (hrest (by omega) ?_)
      by_contra hstatus
      exact hok (.inr hstatus)

-- ---- the client ----

theorem redirect_kept (location : Bytes) {c : Conn σ δ} (hw : Wf env c) (h : Blank c)
    (hg : c.gone = false) (hs : c.state = .handshake) (ho : c.stream ≠ .opening) :
    Kept env (redirect env location c) := by
  have hhonest : Honest c := fun hd => by simp [gone, hd] at hg
  unfold redirect
  split
  · exact fatal_kept _ hw h hhonest ho
  split
  · exact fatal_kept _ hw h hhonest ho
  · rename_i target path _
    have hact : Act env c _ := redirectReconnect_act ((target.map Prod.fst).getD c.host)
      ((target.map Prod.snd).getD c.port) path (c.redirectCount + 1) c hg hs
    have hw₁ := hact.wf hw
    dsimp only
    generalize hc₁ : ({ c with
      path := path, redirectCount := c.redirectCount + 1
      host := (target.map Prod.fst).getD c.host
      port := (target.map Prod.snd).getD c.port } : Conn σ δ) = c₁ at hw₁ ⊢
    have hd₁ : c₁.destroyed = c.destroyed := by rw [← hc₁]
    have hblank₂ : Blank (redirectReconnect env c₁).2 := ⟨rfl, rfl⟩
    split
    · intro _
      refine ⟨rfl, fun _ hpos => ?_, fun _ => rfl, fun _ => rfl, fun h => ?_, fun h => ?_⟩
      · cases hpos
      · cases h
      · cases h
    · rename_i hfail
      refine fatal_kept _ hw₁ hblank₂ (fun hd => ?_) ?_
      · have hd₂ : c₁.destroyed = true := hd
        simp [gone, ← hd₁, hd₂] at hg
      · have hidle : (redirectReconnect env c₁).2.stream =
            if (redirectReconnect env c₁).1 then .opening else .idle := rfl
        rw [hidle, if_neg hfail]
        decide

theorem negotiate_kept (extensions : Bytes) {c : Conn σ δ} (hw : Wf env c) (h : Blank c)
    (hh : Honest c) (ho : c.stream ≠ .opening) (hno : (negotiate env extensions c).1 = false) :
    Kept env (negotiate env extensions c).2 := by
  unfold negotiate at hno ⊢
  split at hno
  · rename_i hpmd
    rw [if_pos hpmd]
    split at hno
    · exact fatal_kept _ hw h hh ho
    split at hno
    · exact fatal_kept _ hw h hh ho
    · cases hno
  · cases hno

theorem clientEstablish_kept (hcap : recvMin ≤ env.recvCap) (ret : Nat) (resp : HandshakeResponse)
    {c : Conn σ δ} (hw : Wf env c) (hg : c.gone = false) (hs : c.stream = .opened)
    (hclient : env.isClient = true) (hv : Verified env c) (h : Blank c) :
    Kept env (clientEstablish env ret resp c) := by
  have hd : c.destroyed = false := by
    by_contra hd
    simp [gone, hd] at hg
  have hhonest : Honest c := fun hd' => by simp [hd] at hd'
  have ho : c.stream ≠ .opening := by simp [hs]
  unfold clientEstablish
  split
  · exact fatal_kept _ hw h hhonest ho
  · obtain ⟨hn, hspec⟩ := negotiate_acts resp.extensions c hw
    have hfail := negotiate_kept resp.extensions hw h hhonest ho
    dsimp only
    split
    · rename_i hno
      exact hfail (by simpa using hno)
    · rename_i hok
      obtain ⟨d, l, hneg, hplain⟩ := hspec (by simpa using hok)
      have hw₁ := Acts.wf hn hw
      rw [hneg] at hw₁ ⊢
      refine openUp_kept hcap ret hw₁ (hv.openable hg hs hclient d l hplain)
        ⟨h.compressed, h.remaining⟩ fun hd' => ?_
      simp [hd] at hd'

theorem handshakeDataClient_kept (hcap : recvMin ≤ env.recvCap) {c : Conn σ δ} (hw : Wf env c)
    (hg : c.gone = false) (hs : c.state = .handshake) (ho : c.stream = .opened)
    (hclient : env.isClient = true) (h : Blank c) (hwait : Roomy env c) :
    Kept env (handshakeDataClient env c) := by
  have hhonest : Honest c := fun hd => by simp [gone, hd] at hg
  have hopening : c.stream ≠ .opening := by simp [ho]
  unfold handshakeDataClient
  obtain ⟨ret, resp, hp⟩ : ∃ ret resp, parseResponse c.recv = (ret, resp) := ⟨_, _, rfl⟩
  rw [hp]
  dsimp only
  set c₂ := c.emit (.response c.recv) with hc₂
  split
  · exact fun _ => hwait
  rename_i hzero
  split
  · have hk : Keeps c _ :=
      callback_keeps env env.onHttpResponse (.onHttpResponse resp.statusCode c.recv []) c
    have ha : Acts env c _ :=
      plainCallback_acts env.onHttpResponse (.onHttpResponse resp.statusCode c.recv []) rfl c
    exact fatal_kept _ (Acts.wf ha hw) (h.keeps hk) (hk.honest hhonest) fun h => hopening (hk.stream h)
  rename_i hneg
  have hw₂ : Wf env c₂ := (Act.response c hs).wf hw
  have hblank₂ : Blank c₂ := ⟨h.compressed, h.remaining⟩
  split
  · exact redirect_kept _ hw₂ hblank₂ hg hs hopening
  rename_i hredirect
  have hverified : verifyAccept c₂.secWsKey resp.accept = true →
      (env.onHttpResponse.isSome = true → resp.statusCode = 101) → Verified env c₂ :=
    response_verified hs hp (by omega) (by simpa using hredirect)
  split
  · split
    · have hk : Keeps c₂ _ := callback_keeps env env.onHttpResponse
        (.onHttpResponse resp.statusCode (c₂.recv.take ret.toNat) (c₂.recv.drop ret.toNat)) c₂
      have hk₂ : Honest c₂ := hhonest
      split
      · exact hblank₂.ended hk hopening (hk.honest hk₂ ‹_›)
      · exact hblank₂.ended (hk.trans (Moves.keeps (enterClosed_moves (notify_moves env) 0 [] _)))
          hopening (enterClosed_over 0 [] (hk.honest hk₂))
    · rename_i hacc
      simp only [not_or, ne_eq, Decidable.not_not, Bool.not_eq_true', Bool.not_eq_false] at hacc
      exact clientEstablish_kept hcap _ resp hw₂ hg ho hclient (hverified hacc.2 fun _ => hacc.1) hblank₂
  · rename_i hnone
    split
    · exact fatal_kept _ hw₂ hblank₂ hhonest hopening
    · rename_i hacc
      exact clientEstablish_kept hcap _ resp hw₂ hg ho hclient
        (hverified (by simpa using hacc) fun h => absurd h hnone) hblank₂

theorem onStreamOpen_kept {c : Conn σ δ} (hw : Wf env c) (hs : c.stream = .opening)
    (h : Roomy env c) : Kept env (onStreamOpen env { c with stream := .opened }) := by
  have hblank : Blank c := ⟨h.compressed, h.unread (.inr hs)⟩
  have hrecv := h.empty hs
  have hgone := (hw.opening hs).2
  have hhonest : Honest c := fun hd => by simp [gone, hd] at hgone
  have hwaits : ∀ c' : Conn σ δ, c'.state = .handshake → c'.stream = .opened → c'.msg = c.msg →
      c'.streamRemaining = c.streamRemaining → c'.recv = c.recv → Roomy env c' := by
    intro c' hstate hstream hmsg hrem hr
    rw [hrecv] at hr
    have hzero : c'.streamRemaining = 0 := hrem.trans hblank.remaining
    refine ⟨by rw [hmsg, h.compressed], fun _ hpos => by omega, fun _ => hzero, fun ho => ?_,
      fun _ _ => by rw [hr]; rfl, fun ho => ?_⟩
    · cases hstream.symm.trans ho
    · cases hstate.symm.trans ho
  unfold onStreamOpen
  split
  · exact fun _ => hwaits _ rfl rfl rfl rfl rfl
  · dsimp only
    split
    · refine fatal_kept _ ((Act.connected c _ hs).wf hw) ⟨hblank.compressed, hblank.remaining⟩ hhonest ?_
      intro h
      cases h
    · rename_i req _
      generalize hc₁ : ({ c with stream := .opened, secWsKey := genKey (env.random c.log) } :
        Conn σ δ).setState .handshake = c₁
      have hk : Keeps c₁ (streamWrite env (notify env) (.requestOut (genKey (env.random c.log)) req) c₁).2 :=
        streamWrite_keeps _ c₁
      have hroomy : Roomy env c₁ := by
        subst hc₁
        exact hwaits _ rfl rfl rfl rfl rfl
      have hfailed : ∀ c', Keeps c₁ c' → Keeps c' (fatal env (notify env) Err.wsConnect c') :=
        fun c' _ => Moves.keeps (fatal_moves (notify_moves env) Err.wsConnect c' fun h => absurd h (by decide))
      split
      · exact fun _ => hroomy.keeps (hk.trans (hfailed _ hk))
      · exact fun _ => hroomy.keeps hk

-- ---- runs ----

theorem onData_kept (hcap : recvMin ≤ env.recvCap) (d : Bytes) (hd : d.length ≤ env.recvCap / 2)
    {c : Conn σ δ} (hw : Wf env c) (ho : c.stream = .opened) (hdf : c.deflate = none)
    (h : Roomy env c) : Kept env (onData env d c) := by
  unfold onData
  split
  · exact fun _ => h
  rename_i hg
  have hg : c.gone = false := by simpa using hg
  have hhonest : Honest c := fun hd => by simp [gone, hd] at hg
  split
  · exact fun _ => h.keeps (fatal_keeps _ hw)
  rename_i hfit
  extract_lets c₁
  have hlen : c₁.recv.length ≤ env.recvCap := by
    simp only [c₁, List.length_append]
    omega
  have hw₁ : Wf env c₁ := hw.of_log [] hlen hw.frag_le rfl rfl id (by simp [c₁]) (by simp)
  split
  · rename_i hs
    have hs' : c.state = .handshake := hs
    have hblank : Blank c₁ := ⟨h.compressed, h.unread (.inl hs')⟩
    have hroomy : (env.isClient = false → (parseRequest c₁.recv).1 = 0) → Roomy env c₁ := by
      intro hwait
      refine ⟨h.compressed, h.streaming, h.unread, fun hst => ?_, fun _ => hwait, fun hst => ?_⟩
      · cases ho.symm.trans hst
      · cases hs'.symm.trans hst
    unfold handshakeData
    split
    · rename_i hclient
      exact handshakeDataClient_kept hcap hw₁ hg hs ho hclient hblank (hroomy fun hno => by
        cases hclient.symm.trans hno)
    · rename_i hclient
      have hserver : env.isClient = false := by simpa using hclient
      refine handshakeDataServer_kept hcap hw₁ ⟨hg, .inr hs⟩ ho hserver hblank (fun hpos hstatus => ?_)
        fun hwait => hroomy fun _ => hwait
      have hskip : c.recv.length < (parseRequest c₁.recv).1.toNat :=
        parseRequest_skip (h.waiting hs' hserver) hpos hstatus
      have hsum : c₁.recv.length = c.recv.length + d.length := List.length_append
      have hmin : 1024 ≤ env.recvCap := hcap
      omega
  · rename_i hs
    obtain ⟨hon, hcomp, hend⟩ := frameData_bounded hcap (c := c₁) hhonest hdf h.compressed hlen hw₁.opened
      (h.streaming fun hc => by simp [gone, hc] at hg)
    exact fun _ => .of_frames hon hs (by simp [c₁, ho]) hcomp hend

theorem step_kept (hcap : recvMin ≤ env.recvCap) (i : Input)
    (hpush : ∀ d, i = .data d → d.length ≤ env.recvCap / 2) {c : Conn σ δ} (hw : Wf env c)
    (hk : Kept env c) : Kept env (step env c i) := by
  intro hplain
  have hdf := (step_stepped c i hw).deflate hplain
  have h := hk hdf
  have hidle : Keeps c { c with stream := .idle } := by
    refine ⟨⟨.inl rfl, nofun, id, id, List.prefix_rfl⟩, ?_⟩
    constructor <;> rfl
  cases i with
  | streamOpened =>
      simp only [step] at hplain ⊢
      split
      · rename_i hs
        rw [if_pos hs] at hplain
        exact onStreamOpen_kept hw hs h hplain
      · exact h
  | data d =>
      simp only [step] at hplain ⊢
      split
      · rename_i ho
        rw [if_pos ho] at hplain
        exact onData_kept hcap d (hpush d rfl) hw ho hdf h hplain
      · exact h
  | streamClosed =>
      simp only [step]
      split
      · exact h.keeps (hidle.trans (Moves.keeps (onStreamClose_moves (notify_moves env) _)))
      · exact h
  | streamFailed err =>
      simp only [step]
      split
      · exact h.keeps (hidle.trans (Moves.keeps (onStreamError_moves (notify_moves env) err _)))
      · exact h
  | pingTick =>
      simp only [step, onPingTimer]
      split
      · split
        · exact h
        · refine h.keeps (Moves.keeps (sendFrameRaw_moves (notify_moves env) Opcode.ping (.null 0) false c
            fun _ h => ?_))
          rcases h with h | h <;> cases h
      · exact h
  | call a => exact h.keeps (Moves.keeps (call_moves (notify_moves env) a c))

theorem run_kept (hcap : recvMin ≤ env.recvCap) (inputs : List Input)
    (hpush : ∀ d, .data d ∈ inputs → d.length ≤ env.recvCap / 2) {c : Conn σ δ} (hw : Wf env c)
    (hk : Kept env c) : Wf env (run env c inputs) ∧ Kept env (run env c inputs) := by
  induction inputs generalizing c with
  | nil => exact ⟨hw, hk⟩
  | cons i rest ih =>
      refine ih (fun d hd => hpush d (List.mem_cons_of_mem _ hd)) ((step_stepped c i hw).wf hw) ?_
      exact step_kept hcap i (fun d hd => hpush d (hd ▸ List.mem_cons_self ..)) hw hk

-- The ways into a connection, with the size of its buffers and of the pushes to it.
inductive Sized (env : Env σ δ) : Nat → Conn σ δ → Prop
  | start (bufsz : Nat) (host : Bytes) (port : Nat) (path : Bytes) (seed : UInt32)
      (hcap : env.recvCap = allocCap bufsz) : Sized env (env.recvCap / 2) (start host port path seed)
  | upgrade (rcap : Nat) (recv : Bytes) (seed : UInt32) (hserver : env.isClient = false)
      (hcap : env.recvCap = upgradeCap rcap) (hfit : recv.length ≤ rcap) :
      Sized env rcap (upgrade env recv seed)

theorem Sized.limit {limit : Nat} {c : Conn σ δ} (h : Sized env limit c) :
    recvMin ≤ env.recvCap ∧ limit ≤ env.recvCap / 2 := by
  cases h with
  | start bufsz host port path seed hcap =>
      rw [hcap]
      exact ⟨le_max_right _ _, le_rfl⟩
  | upgrade rcap recv seed hserver hcap hfit =>
      simp only [hcap, upgradeCap, recvMin, recvDefault]
      split <;> omega

theorem Sized.kept {limit : Nat} {c : Conn σ δ} (h : Sized env limit c) : Wf env c ∧ Kept env c := by
  obtain ⟨hmin, hlimit⟩ := h.limit
  cases h with
  | start bufsz host port path seed hcap =>
      refine ⟨start_wf host port path seed, fun _ => ⟨rfl, fun _ => ?_, fun _ => rfl, fun _ => rfl, ?_, ?_⟩⟩ <;>
        · intro h
          cases h
  | upgrade rcap recv seed hserver hcap hfit =>
      refine ⟨(Entry.not_early (.upgrade recv seed hserver (by omega))).1, ?_⟩
      have hw : Wf env { Conn.start (σ := σ) (δ := δ) [] 0 [] seed with
          stream := .opened, recv := recv } := by
        have hlen : recv.length ≤ env.recvCap := by omega
        constructor <;> simp [Conn.start, Opened, Terminated, Refused, hlen]
      refine handshakeDataServer_kept hmin hw ⟨rfl, .inl rfl⟩ rfl hserver ⟨rfl, rfl⟩
        (fun hpos _ => ?_) fun _ => ⟨rfl, fun _ => ?_, fun _ => rfl, ?_, ?_, ?_⟩
      · have hhalf : 1024 ≤ env.recvCap := hmin
        dsimp only at hpos ⊢
        omega
      all_goals
        intro h
        cases h

-- Whatever arrives and whatever the callbacks do: in OPEN without permessage-deflate, what is left
-- in recv_buf takes less than half of it, and the next push fits.
theorem receive_bounded (env : Env σ δ) {limit : Nat} {c : Conn σ δ} (h : Sized env limit c)
    (inputs : List Input) (hpush : ∀ d, .data d ∈ inputs → d.length ≤ limit)
    (ho : (run env c inputs).state = .opened) (hdf : (run env c inputs).deflate = none) :
    (run env c inputs).recv.length < env.recvCap / 2 ∧
      (run env c inputs).frag.length ≤ env.recvCap ∧
      (0 < (run env c inputs).streamRemaining →
        (run env c inputs).msg.mode = .stream ∧ (run env c inputs).recv = []) ∧
      ∀ d : Bytes, d.length ≤ limit → (run env c inputs).recv.length + d.length ≤ env.recvCap := by
  obtain ⟨hmin, hlimit⟩ := h.limit
  obtain ⟨hw, hk⟩ := h.kept
  obtain ⟨hwr, hkr⟩ := run_kept hmin inputs (fun d hd => (hpush d hd).trans hlimit) hw hk
  have hb := (hkr hdf).opened ho
  have hlt := hb.recv_lt
  exact ⟨hlt, hwr.frag_le, hb.streaming, fun d hd => by omega⟩

-- Two bytes of a frame of five are there, in OPEN.
def partialInputs : List Input :=
  [.streamOpened, .data sampleRequest, .data [0x82, 0x85, 1, 2, 3, 4, 0x41, 0x42]]

theorem receive_bounded_partial :
    (run plainServer (start [] 0 [] 1) partialInputs).recv.length = 8 ∧
      ∀ d : Bytes, d.length ≤ 512 →
        (run plainServer (start [] 0 [] 1) partialInputs).recv.length + d.length ≤ 1024 := by
  obtain ⟨ho, hlen, hdf⟩ : (run plainServer (start [] 0 [] 1) partialInputs).state = .opened ∧
      (run plainServer (start [] 0 [] 1) partialInputs).recv.length = 8 ∧
      (run plainServer (start [] 0 [] 1) partialInputs).deflate = none := by
    rw [partialInputs, run_openServer, openServer_eq]
    decide +kernel
  have hpush : ∀ d, .data d ∈ partialInputs → d.length ≤ 512 := by
    intro d hd
    simp only [partialInputs, List.mem_cons, List.not_mem_nil, or_false, Input.data.injEq,
      reduceCtorEq, false_or] at hd
    rcases hd with rfl | rfl <;> decide +kernel
  exact ⟨hlen, (receive_bounded plainServer (.start 1024 [] 0 [] 1 rfl) partialInputs hpush
    ho hdf).2.2.2⟩

end Conn

end Sevent.Ws
