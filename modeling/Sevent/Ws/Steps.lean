import Sevent.Ws.Work

-- The handshake and the inputs of a connection as acts, and from them whole runs.
namespace Sevent.Ws.Conn

open Sevent.Stream (WriteRes)

variable {σ δ : Type} {env : Env σ δ}

-- ---- what a user cannot do ----

theorem Move.opened_log {c c' : Conn σ δ} (hm : Move env c c') (h : Opened c'.log) :
    Opened c.log := by
  cases hm with
  | note e he =>
      rcases (opened_append _ _).mp h with h | h
      · exact h
      · exact absurd (List.mem_singleton.mp h).symm (Event.inert_spec (Event.inert_of_plain he)).1
  | seed seed => exact h
  | compressor df d hd => exact h
  | frame opcode data res hs ho => simpa [written] using h
  | ended n hg =>
      rw [notifyNested_eq, shut_eq] at h
      cases n <;> simpa [noticeEvents, shutEvents, Notice.event] using h
  | leave ho => simpa [setState] using h
  | close => simpa [close_eq, closeEvents] using h

theorem Moves.opened_log {c c' : Conn σ δ} (hm : Moves env c c') (h : Opened c'.log) :
    Opened c.log := by
  induction hm with
  | refl => exact h
  | tail _ hm ih => exact ih (hm.opened_log h)

theorem Moves.opening {c c' : Conn σ δ} (hm : Moves env c c') (h : c'.stream = .opening) :
    c.stream = .opening := by
  induction hm with
  | refl => exact h
  | tail _ hm ih =>
      refine ih ?_
      cases hm with
      | note e he => exact h
      | seed seed => exact h
      | compressor df d hd => exact h
      | frame opcode data res hs ho => exact written_opening h
      | ended n hg =>
          rw [notifyNested_eq, shut_eq] at h
          cases h
      | leave ho => exact h
      | close =>
          rw [close_eq] at h
          cases h

-- ---- OPEN ----

theorem fatal_acts (err : Int) (c : Conn σ δ) (hw : Wf env c) :
    Acts env c (fatal env (notify env) err c) :=
  Moves.acts (fatal_moves (notify_moves env) err c fun _ => hw.opened)

theorem registerPing_acts (c : Conn σ δ) (hg : c.gone = false ∨ OpenClosed c.log) :
    Acts env c (c.registerPing env) := by
  unfold registerPing
  split
  · exact .single (Act.timer c _ _ hg)
  · exact .refl

theorem onOpen_acts (c : Conn σ δ) (ho : Openable env c) :
    Acts env c (callback env env.onOpen .onOpen (c.setState .opened)) := by
  refine Relation.ReflTransGen.head (Act.opened c ho) ?_
  unfold announce
  cases hcb : env.onOpen with
  | none => simpa [callback] using Relation.ReflTransGen.refl
  | some cb => exact Moves.acts (callback_moves env cb .onOpen _)

theorem openUp_acts (skip : Nat) (c : Conn σ δ) (hw : Wf env c) (ho : Openable env c) :
    Acts env c (openUp env skip c) := by
  unfold openUp
  extract_lets c₁ c₂ c₃
  have hdrop : Acts env c { c with recv := c.recv.drop skip } :=
    acts_quiet hw ⟨rfl, rfl, rfl, rfl, rfl, rfl, id⟩ (by simp) le_rfl
  have h₂ : Acts env c c₂ := by
    refine (hdrop.trans (onOpen_acts _ ⟨ho.fresh, ho.stream, ho.client, ho.server⟩)).tail
      (Act.move (Move.note _ .openReturned rfl))
  have hw₂ := h₂.wf hw
  split
  · exact h₂
  rename_i hd
  have hping : Acts env c₂ c₃ := by
    refine registerPing_acts c₂ ?_
    by_cases hs : c₂.state = .closed
    · refine .inr ⟨_, .openReturned, List.prefix_rfl, rfl, ?_, ?_⟩
      · have hclosed := hw₂.closed hs
        simpa [c₂, emit] using hclosed
      · intro h
        exact hd (hw₂.closeCall (List.mem_append_left _ h))
    · left
      simp [gone, hd, hs]
  have h₃ := h₂.trans hping
  have hw₃ : Wf env c₃ := Acts.wf h₃ hw
  split
  · exact h₃
  · have hopened : Opened c₁.log := by simp [Opened, c₁, setState]
    have hentered : Entered c₃.log := by
      refine .inl (hopened.mono ?_)
      refine List.IsPrefix.trans ?_ (Acts.log_grows hping)
      refine List.IsPrefix.trans ?_ (List.prefix_append _ _)
      cases hcb : env.onOpen with
      | none => exact List.prefix_rfl
      | some cb => exact (List.prefix_append _ _).trans (callback_moves env cb .onOpen c₁).log_grows
    have hframes := (runFrames_acts c₃ hw₃ hentered).1
    dsimp only
    split
    · exact (h₃.trans hframes).trans (fatal_acts _ _ (Acts.wf hframes hw₃))
    · exact h₃.trans hframes

-- ---- the server ----

theorem reply_acts (ev : WriteRes → Event) (c : Conn σ δ) (hs : c.stream = .opened)
    (ha : ∀ res, Act env c (c.written (ev res) res)) :
    Acts env c (streamWrite env (notify env) ev c).2 := by
  rw [streamWrite_eq env _ ev c hs]
  exact Relation.ReflTransGen.head (ha _) (Moves.acts (settle_moves (notify_moves env) _ _))

theorem serverHandshakeFail_acts (status : Nat) (c : Conn σ δ) (hw : Wf env c) (hf : c.Fresh)
    (hs : c.stream = .opened) : Acts env c (serverHandshakeFail env status c) := by
  unfold serverHandshakeFail
  extract_lets text extra c₁ c₂
  have h₁ : Acts env c c₁ ∧ ¬ Opened c₁.log ∧ c₁.stream ≠ .opening := by
    simp only [c₁]
    split
    · exact ⟨.refl, hw.fresh hf.2, by simp [hs]⟩
    · rename_i resp _
      refine ⟨reply_acts _ c hs fun res => Act.refusal c resp res hs hf, ?_⟩
      rw [streamWrite_eq env _ _ c hs]
      have hm := settle_moves (notify_moves env) (env.write c.log)
        (c.written (.refusalOut resp (env.write c.log)) (env.write c.log))
      refine ⟨fun h => ?_, fun h => ?_⟩
      · have := hm.opened_log h
        simp only [written, opened_append] at this
        simp [hw.fresh hf.2] at this
      · have := written_opening (hm.opening h)
        simp [hs] at this
  have h₂ : Acts env c c₂ := h₁.1.tail (Act.refused c₁ h₁.2.1 h₁.2.2)
  cases hcb : env.onError with
  | none => exact h₂
  | some cb =>
      have hrefused : Refused c₂.log := by simp [Refused, c₂, setState, emit]
      exact (h₂.tail (Act.refusedError c₂ _ hrefused)).trans
        (Moves.acts (callback_moves env cb _ c₂))

variable (env) in
theorem createDeflate_spec (p : DeflateParams) (c : Conn σ δ) :
    ∃ ok d, (createDeflate env p c).2 = { c with deflate := d, log := c.log ++ [.alloc ok] } ∧
      (c.deflate.isSome = true → d.isSome = true) := by
  unfold createDeflate
  dsimp only [alloc]
  split
  · exact ⟨_, c.deflate, rfl, id⟩
  · exact ⟨_, _, rfl, fun _ => rfl⟩

theorem alloc_deflate_acts (c : Conn σ δ) (hw : Wf env c) (ok : Bool) (d : Option (Deflate σ δ))
    (hd : c.deflate.isSome = true → d.isSome = true) :
    Acts env c { c with deflate := d, log := c.log ++ [.alloc ok] } := by
  have h₁ : Acts env c (c.emit (.alloc ok)) := .single (Act.move (Move.note c _ rfl))
  exact h₁.tail (Act.quiet ⟨rfl, rfl, rfl, rfl, rfl, rfl, hd⟩ hw.recv_le hw.frag_le)

-- The context changes nothing that matters here.
theorem confirmDeflate_acts (confirm : Bool) (p : DeflateParams) (c : Conn σ δ) (hw : Wf env c) :
    ∃ d l, (if confirm = true then createDeflate env p c else (false, c)).2 =
        { c with deflate := d, log := c.log ++ l } ∧
      Acts env c { c with deflate := d, log := c.log ++ l } := by
  split
  · obtain ⟨ok, d, hd, hsome⟩ := createDeflate_spec env p c
    exact ⟨d, [.alloc ok], hd, alloc_deflate_acts c hw ok d hsome⟩
  · exact ⟨c.deflate, [], by simp, by simpa using Relation.ReflTransGen.refl⟩

-- The answer of the server has been taken by the stream, which it may have torn down.
theorem upgradeOut_openable {c : Conn σ δ} (resp : Bytes) (hf : c.Fresh) (hs : c.stream = .opened)
    (hserver : env.isClient = false)
    (hrc : (streamWrite env (notify env) (.upgradeOut resp) c).1 = 0) :
    Openable env (streamWrite env (notify env) (.upgradeOut resp) c).2 := by
  rw [streamWrite_eq env _ _ c hs] at hrc ⊢
  have hret : (env.write c.log).ret = 0 := hrc
  generalize env.write c.log = res at hret ⊢
  have hm := settle_moves (notify_moves env) res (c.written (.upgradeOut resp res) res)
  have hmem : Event.upgradeOut resp res ∈
      (settle (notify env) res (c.written (.upgradeOut resp res) res)).log :=
    hm.log_grows.subset (by simp [written])
  refine ⟨?_, fun h => ?_, fun h => ?_, fun _ => ⟨resp, res, hmem, hret⟩⟩
  · cases res with
    | ok => exact .inl hf
    | nomem => cases hret
    | inval => cases hret
    | failed err => cases hret
    | torn accepted =>
        cases accepted with
        | true => exact .inr ⟨_, hmem, rfl⟩
        | false => cases hret
  · have := written_opening (hm.opening h)
    simp [hs] at this
  · cases hserver.symm.trans h

theorem serverEstablish_acts (key : Bytes) (skip : Nat) (deflateOffered clientNct : Bool)
    (c : Conn σ δ) (hw : Wf env c) (hf : c.Fresh) (hs : c.stream = .opened)
    (hserver : env.isClient = false) :
    Acts env c (serverEstablish env key skip deflateOffered clientNct c) := by
  unfold serverEstablish
  dsimp only
  obtain ⟨d, l, hctx, h₁⟩ := confirmDeflate_acts (env.enableDeflate && deflateOffered)
    { DeflateParams.zero with
      clientNoContextTakeover := clientNct, compressionLevel := env.deflateLevel } c hw
  generalize (if (env.enableDeflate && deflateOffered) = true then
      createDeflate env
        { DeflateParams.zero with
          clientNoContextTakeover := clientNct, compressionLevel := env.deflateLevel } c
      else (false, c)) = r at hctx ⊢
  obtain ⟨confirm, c₁⟩ := r
  obtain rfl : c₁ = { c with deflate := d, log := c.log ++ l } := hctx
  have hw₁ := Acts.wf h₁ hw
  generalize hc₁ : ({ c with deflate := d, log := c.log ++ l } : Conn σ δ) = c₁ at h₁ hw₁ ⊢
  have hf₁ : c₁.Fresh := by
    subst hc₁
    exact hf
  have hs₁ : c₁.stream = .opened := by
    subst hc₁
    exact hs
  dsimp only
  split
  · exact h₁.trans (fatal_acts _ _ hw₁)
  · rename_i resp _
    have hwrite : Acts env c₁ (streamWrite env (notify env) (.upgradeOut resp) c₁).2 :=
      reply_acts (.upgradeOut resp) c₁ hs₁ fun res => Act.switching c₁ resp res hs₁ hf₁
    have hw₂ := Acts.wf hwrite hw₁
    split
    · exact (h₁.trans hwrite).trans (fatal_acts _ _ hw₂)
    · rename_i hrc
      exact (h₁.trans hwrite).trans
        (openUp_acts skip _ hw₂ (upgradeOut_openable resp hf₁ hs₁ hserver (by simpa using hrc)))

theorem handshakeDataServer_acts (c : Conn σ δ) (hw : Wf env c) (hf : c.Fresh)
    (hs : c.stream = .opened) (hserver : env.isClient = false) :
    Acts env c (handshakeDataServer env c) := by
  unfold handshakeDataServer
  dsimp only
  split
  · exact .refl
  · split
    · exact serverHandshakeFail_acts _ c hw hf hs
    · exact serverEstablish_acts _ _ _ _ c hw hf hs hserver

-- ---- the client ----

theorem redirectReconnect_act (host : Bytes) (port : Nat) (path : Bytes) (count : Nat) (c : Conn σ δ)
    (hg : c.gone = false) (hs : c.state = .handshake) :
    Act env c (redirectReconnect env
      { c with path := path, redirectCount := count, host := host, port := port }).2 := by
  have h : Act env c _ := Act.redirected c
    { c.msg with mode := .none, compressed := false, total := 0, finSent := false }
    host port path count (redirectReconnect env
      { c with path := path, redirectCount := count, host := host, port := port }).1 hg hs
  simpa [redirectReconnect, closeSocket, setState] using h

theorem redirect_acts (location : Bytes) (c : Conn σ δ) (hw : Wf env c) (hg : c.gone = false)
    (hs : c.state = .handshake) : Acts env c (redirect env location c) := by
  unfold redirect
  split
  · exact fatal_acts _ c hw
  split
  · exact fatal_acts _ c hw
  · rename_i target path _
    have hact : Act env c _ := redirectReconnect_act ((target.map Prod.fst).getD c.host)
      ((target.map Prod.snd).getD c.port) path (c.redirectCount + 1) c hg hs
    dsimp only
    split
    · exact .single hact
    · exact (Relation.ReflTransGen.single hact).trans (fatal_acts _ _ (hact.wf hw))

theorem negotiate_acts (extensions : Bytes) (c : Conn σ δ) (hw : Wf env c) :
    Acts env c (negotiate env extensions c).2 ∧
      ((negotiate env extensions c).1 = true → ∃ d l,
        (negotiate env extensions c).2 = { c with deflate := d, log := c.log ++ l } ∧
        ∀ e ∈ l, e.plain = true) := by
  unfold negotiate
  split
  · split
    · exact ⟨fatal_acts _ c hw, fun h => by cases h⟩
    split
    · exact ⟨fatal_acts _ c hw, fun h => by cases h⟩
    · dsimp only
      generalize DeflateParams.mk _ _ _ _ _ = p
      obtain ⟨ok, d, hd, hsome⟩ := createDeflate_spec env p c
      rw [hd]
      exact ⟨alloc_deflate_acts c hw ok d hsome, fun _ => ⟨d, [.alloc ok], rfl, by simp [Event.plain]⟩⟩
  · exact ⟨.refl, fun _ => ⟨c.deflate, [], by simp, by simp⟩⟩

theorem Verified.openable {c : Conn σ δ} (hv : Verified env c) (hg : c.gone = false)
    (hs : c.stream = .opened) (hclient : env.isClient = true) (d : Option (Deflate σ δ))
    (l : List Event) (hplain : ∀ e ∈ l, e.plain = true) :
    Openable env { c with deflate := d, log := c.log ++ l } := by
  obtain ⟨hstate, buf, since, ⟨past, hafter⟩, hsince, hacc⟩ := hv
  refine ⟨.inl ⟨hg, .inr hstate⟩, by simp [hs], fun _ => ⟨hstate, buf, since ++ l, ⟨past, ?_⟩, ?_,
    hacc⟩, fun h => by cases hclient.symm.trans h⟩
  · simp [hafter]
  · intro e he
    exact (List.mem_append.mp he).elim (hsince e) (hplain e)

theorem clientEstablish_acts (ret : Nat) (resp : HandshakeResponse) (c : Conn σ δ) (hw : Wf env c)
    (hg : c.gone = false) (hs : c.stream = .opened) (hclient : env.isClient = true)
    (hv : Verified env c) : Acts env c (clientEstablish env ret resp c) := by
  unfold clientEstablish
  split
  · exact fatal_acts _ c hw
  · obtain ⟨hn, hspec⟩ := negotiate_acts resp.extensions c hw
    dsimp only
    split
    · exact hn
    · rename_i hok
      refine hn.trans (openUp_acts ret _ (Acts.wf hn hw) ?_)
      obtain ⟨d, l, hd, hplain⟩ := hspec (by simpa using hok)
      rw [hd]
      exact hv.openable hg hs hclient d l hplain

theorem plainCallback_acts (cb : Callback) (e : Event) (he : e.plain = true) (c : Conn σ δ) :
    Acts env c (callback env cb e c) := by
  cases cb with
  | none => exact .refl
  | some cb =>
      exact (Relation.ReflTransGen.single (Act.move (Move.note c _ he))).trans
        (Moves.acts (callback_moves env cb _ c))

-- The response that the client goes on with.
theorem response_verified {c : Conn σ δ} {ret : Int} {resp : HandshakeResponse}
    (hs : c.state = .handshake) (hp : parseResponse c.recv = (ret, resp)) (hret : 0 < ret)
    (hredirect : resp.redirects = false) (ha : verifyAccept c.secWsKey resp.accept = true)
    (hst : env.onHttpResponse.isSome = true → resp.statusCode = 101) :
    Verified env (c.emit (.response c.recv)) := by
  refine ⟨hs, c.recv, [], ⟨c.log, rfl⟩, by simp, ?_⟩
  rw [Accepts, hp]
  exact ⟨hret, hredirect, ha, hst⟩

theorem handshakeDataClient_acts (c : Conn σ δ) (hw : Wf env c) (hg : c.gone = false)
    (hs : c.state = .handshake) (ho : c.stream = .opened) (hclient : env.isClient = true) :
    Acts env c (handshakeDataClient env c) := by
  unfold handshakeDataClient
  obtain ⟨ret, resp, hp⟩ : ∃ ret resp, parseResponse c.recv = (ret, resp) := ⟨_, _, rfl⟩
  rw [hp]
  dsimp only
  set c₂ := c.emit (.response c.recv) with hc₂
  split
  · exact .refl
  rename_i hzero
  split
  · have h : Acts env c _ :=
      plainCallback_acts env.onHttpResponse (.onHttpResponse resp.statusCode c.recv []) rfl c
    exact h.trans (fatal_acts _ _ (Acts.wf h hw))
  rename_i hneg
  have h₂ : Acts env c c₂ := .single (Act.response c hs)
  have hw₂ : Wf env c₂ := Acts.wf h₂ hw
  split
  · exact h₂.trans (redirect_acts _ c₂ hw₂ hg hs)
  rename_i hredirect
  have hverified : verifyAccept c₂.secWsKey resp.accept = true →
      (env.onHttpResponse.isSome = true → resp.statusCode = 101) → Verified env c₂ :=
    response_verified hs hp (by omega) (by simpa using hredirect)
  split
  · split
    · have h : Acts env c₂ _ := plainCallback_acts env.onHttpResponse
        (.onHttpResponse resp.statusCode (c₂.recv.take ret.toNat) (c₂.recv.drop ret.toNat)) rfl c₂
      split
      · exact h₂.trans h
      · exact (h₂.trans h).trans (Moves.acts (enterClosed_moves (notify_moves env) 0 [] _))
    · rename_i hacc
      simp only [not_or, ne_eq, Decidable.not_not, Bool.not_eq_true', Bool.not_eq_false] at hacc
      exact h₂.trans (clientEstablish_acts _ resp c₂ hw₂ hg ho hclient
        (hverified hacc.2 fun _ => hacc.1))
  · rename_i hnone
    split
    · exact h₂.trans (fatal_acts _ c₂ hw₂)
    · rename_i hacc
      exact h₂.trans (clientEstablish_acts _ resp c₂ hw₂ hg ho hclient
        (hverified (by simpa using hacc) fun h => absurd h hnone))

theorem onStreamOpen_acts (c : Conn σ δ) (hw : Wf env c) (hs : c.stream = .opening) :
    Acts env c (onStreamOpen env { c with stream := .opened }) := by
  unfold onStreamOpen
  split
  · rename_i hclient
    exact .single (Act.accepted c hs (by simpa using hclient))
  · dsimp only
    split
    · have h : Act env c { c with stream := .opened, secWsKey := genKey (env.random c.log) } :=
        Act.connected c _ hs
      exact (Relation.ReflTransGen.single h).trans (fatal_acts _ _ (h.wf hw))
    · rename_i req _
      rw [streamWrite_eq env _ _ _ (by rfl)]
      have h : Act env c _ := Act.requested c (env.random c.log) req
        (env.write (c.log ++ [.state .handshake])) hs
      have hsettle : Acts env c (settle (notify env) (env.write (c.log ++ [.state .handshake]))
          (written (.requestOut (genKey (env.random c.log)) req (env.write (c.log ++ [.state .handshake])))
            (env.write (c.log ++ [.state .handshake]))
            ({ c with stream := .opened, secWsKey := genKey (env.random c.log) }.setState .handshake))) :=
        (Relation.ReflTransGen.single h).trans (Moves.acts (settle_moves (notify_moves env) _ _))
      dsimp only
      split
      · exact hsettle.trans (fatal_acts _ _ (Acts.wf hsettle hw))
      · exact hsettle

-- ---- inputs ----

-- A push that is read as frames on a connection that has not been OPEN.
def EarlyPush (env : Env σ δ) (c : Conn σ δ) : Input → Prop
  | .data d => c.stream = .opened ∧ (c.state = .connecting ∨ c.state = .closing) ∧
      c.destroyed = false ∧ c.recv.length + d.length ≤ env.recvCap ∧ ¬ Opened c.log
  | _ => False

instance decidableEarlyPush (env : Env σ δ) (c : Conn σ δ) (i : Input) :
    Decidable (EarlyPush env c i) :=
  match i with
  | .data d => inferInstanceAs (Decidable (c.stream = .opened ∧
      (c.state = .connecting ∨ c.state = .closing) ∧ c.destroyed = false ∧
      c.recv.length + d.length ≤ env.recvCap ∧ ¬ Opened c.log))
  | .streamOpened | .streamClosed | .streamFailed _ | .pingTick | .call _ =>
      inferInstanceAs (Decidable False)

-- A step is acts, or the entry into ws_frame_data and acts.
inductive Stepped (env : Env σ δ) (c : Conn σ δ) (i : Input) (c' : Conn σ δ) : Prop
  | acts (ha : Acts env c c')
  | frames (c₁ : Conn σ δ) (ha : Acts env c c₁) (hl : c₁.log = c.log)
      (hearly : Opened c.log ∨ EarlyPush env c i)
      (hb : Acts env (c₁.emit .frameData) c')

theorem Wf.frameData {c : Conn σ δ} (hw : Wf env c) : Wf env (c.emit .frameData) :=
  hw.of_log [.frameData] hw.recv_le hw.frag_le rfl rfl id rfl (by simp [Event.inert, Event.terminal])

theorem onData_stepped (d : Bytes) (c : Conn σ δ) (hw : Wf env c) (ho : c.stream = .opened) :
    Stepped env c (.data d) (onData env d c) := by
  unfold onData
  split
  · exact .acts .refl
  rename_i hg
  have hg : c.gone = false := by simpa using hg
  split
  · exact .acts (fatal_acts _ c hw)
  rename_i hfit
  extract_lets c₁
  have h₁ : Acts env c c₁ :=
    .single (Act.quiet ⟨rfl, rfl, rfl, rfl, rfl, rfl, id⟩ (by simpa [c₁] using hfit) hw.frag_le)
  have hw₁ : Wf env c₁ := Acts.wf h₁ hw
  split
  · rename_i hs
    refine .acts (h₁.trans ?_)
    unfold handshakeData
    split
    · exact handshakeDataClient_acts c₁ hw₁ hg hs ho ‹_›
    · rename_i hclient
      exact handshakeDataServer_acts c₁ hw₁ ⟨hg, .inr hs⟩ ho (by simpa using hclient)
  · rename_i hs
    have hentered : Entered (c₁.emit .frameData).log := by
      by_cases hopened : Opened c₁.log
      · exact .inl (hopened.mono (List.prefix_append _ _))
      · exact .inr ⟨c₁.log, .frameData, List.prefix_rfl, rfl, hopened⟩
    refine .frames c₁ h₁ rfl ?_ (frameData_acts c₁ hw₁.frameData hg hentered)
    by_cases hopened : Opened c.log
    · exact .inl hopened
    · simp only [gone, Bool.or_eq_false_iff, beq_eq_false_iff_ne] at hg
      refine .inr ⟨ho, ?_, hg.1, by omega, hopened⟩
      have hnot : c.state ≠ .opened := fun h => hopened (hw.opened h)
      cases hstate : c.state <;> simp_all [c₁]

theorem step_stepped (c : Conn σ δ) (i : Input) (hw : Wf env c) : Stepped env c i (step env c i) := by
  cases i with
  | streamOpened =>
      simp only [step]
      split
      · exact .acts (onStreamOpen_acts c hw ‹_›)
      · exact .acts .refl
  | data d =>
      simp only [step]
      split
      · exact onData_stepped d c hw ‹_›
      · exact .acts .refl
  | streamClosed =>
      simp only [step]
      split
      · exact .acts ((Relation.ReflTransGen.single (Act.idle c)).trans
          (Moves.acts (onStreamClose_moves (notify_moves env) _)))
      · exact .acts .refl
  | streamFailed err =>
      simp only [step]
      split
      · exact .acts ((Relation.ReflTransGen.single (Act.idle c)).trans
          (Moves.acts (onStreamError_moves (notify_moves env) err _)))
      · exact .acts .refl
  | pingTick =>
      simp only [step, onPingTimer]
      split
      · split
        · exact .acts .refl
        · refine .acts (Moves.acts (sendFrameRaw_moves (notify_moves env) Opcode.ping (.null 0) false c
            fun _ h => ?_))
          rcases h with h | h <;> cases h
      · exact .acts .refl
  | call a => exact .acts (Moves.acts (call_moves (notify_moves env) a c))

theorem Stepped.wf {c c' : Conn σ δ} {i : Input} (h : Stepped env c i c') (hw : Wf env c) :
    Wf env c' := by
  cases h with
  | acts ha => exact Acts.wf ha hw
  | frames c₁ ha hl hearly hb => exact Acts.wf hb (Acts.wf ha hw).frameData

theorem start_wf (host : Bytes) (port : Nat) (path : Bytes) (seed : UInt32) :
    Wf env (start host port path seed) := by
  constructor <;> simp [start, gone, Opened, Terminated, Refused]

-- ---- runs ----

-- The ways into a connection: sevent_ws_connect and sevent_ws_accept, or sevent_ws_upgrade.
inductive Entry (env : Env σ δ) : Conn σ δ → Prop
  | start (host : Bytes) (port : Nat) (path : Bytes) (seed : UInt32) :
      Entry env (start host port path seed)
  | upgrade (recv : Bytes) (seed : UInt32) (hserver : env.isClient = false)
      (hfit : recv.length ≤ env.recvCap) : Entry env (upgrade env recv seed)

theorem Entry.acts {c : Conn σ δ} (h : Entry env c) :
    ∃ c₀, Wf env c₀ ∧ c₀.log = [] ∧ c₀.state = .connecting ∧ Acts env c₀ c := by
  cases h with
  | start host port path seed =>
      exact ⟨_, start_wf host port path seed, rfl, rfl, .refl⟩
  | upgrade recv seed hserver hfit =>
      have hw : Wf env { Conn.start (σ := σ) (δ := δ) [] 0 [] seed with
          stream := .opened, recv := recv } := by
        constructor <;> simp [Conn.start, Opened, Terminated, Refused, hfit]
      exact ⟨_, hw, rfl, rfl, handshakeDataServer_acts _ hw ⟨rfl, .inl rfl⟩ rfl hserver⟩

-- What every act and every entry into ws_frame_data keep, every run keeps.
theorem Acts.keeps {P : Conn σ δ → Prop}
    (hact : ∀ c c', Wf env c → Act env c c' → P c → P c') {c c' : Conn σ δ} (hw : Wf env c)
    (ha : Acts env c c') (h : P c) : P c' := by
  induction ha with
  | refl => exact h
  | tail ha hstep ih => exact hact _ _ (Acts.wf ha hw) hstep ih

theorem run_keeps {P : Conn σ δ → Prop} (hact : ∀ c c', Wf env c → Act env c c' → P c → P c')
    (hframe : ∀ c, Wf env c → P c → P (c.emit .frameData)) (inputs : List Input) {c : Conn σ δ}
    (hw : Wf env c) (h : P c) : Wf env (run env c inputs) ∧ P (run env c inputs) := by
  induction inputs generalizing c with
  | nil => exact ⟨hw, h⟩
  | cons i rest ih =>
      have hstep := step_stepped c i hw
      refine ih (hstep.wf hw) ?_
      cases hstep with
      | acts ha => exact Acts.keeps hact hw ha h
      | frames c₁ ha hl hearly hb =>
          have hw₁ := Acts.wf ha hw
          exact Acts.keeps hact hw₁.frameData hb (hframe c₁ hw₁ (Acts.keeps hact hw ha h))

theorem Act.frameData_notMem {c c' : Conn σ δ} (ha : Act env c c') (hw : Wf env c) :
    ∃ l, c'.log = c.log ++ l ∧ Event.frameData ∉ l := by
  obtain ⟨l, hl, hlogged⟩ := ha.grown hw
  refine ⟨l, hl, fun hmem => ?_⟩
  obtain ⟨past, future, hsplit⟩ := List.append_of_mem hmem
  have h : Logged env c (c.log ++ past) .frameData := hlogged past _ future hsplit
  generalize c.log ++ past = before at h
  generalize he : Event.frameData = e at h
  cases h with
  | notice n hg => cases n <;> cases he
  | routine hr =>
      subst he
      cases hr
  | deliver hd hr =>
      subst he
      cases hd
  | _ => cases he

theorem Act.early {c c' : Conn σ δ} (ha : Act env c c') (hw : Wf env c) (h : Early c'.log) :
    Early c.log := by
  obtain ⟨l, hl, hnot⟩ := ha.frameData_notMem hw
  obtain ⟨past, _, ⟨future, hp⟩, rfl, ho⟩ := h
  rw [hl, List.append_assoc] at hp
  rcases List.append_eq_append_iff.mp hp with ⟨as, hlog, hfuture⟩ | ⟨bs, hpast, hbs⟩
  · cases as with
    | nil =>
        rw [List.nil_append] at hfuture
        exact absurd (hfuture ▸ List.mem_append_left _ (List.mem_singleton.mpr rfl)) hnot
    | cons e as =>
        have he : Event.frameData = e ∧ future = as ++ l := by simpa using hfuture
        exact ⟨past, _, ⟨as, by rw [hlog, he.1]; simp⟩, rfl, ho⟩
  · exact absurd (by rw [hbs]; simp) hnot

theorem Acts.early {c c' : Conn σ δ} (ha : Acts env c c') (hw : Wf env c) (h : Early c'.log) :
    Early c.log := by
  induction ha with
  | refl => exact h
  | tail ha hstep ih => exact ih (hstep.early (Acts.wf ha hw) h)

theorem Stepped.early {c c' : Conn σ δ} {i : Input} (h : Stepped env c i c') (hw : Wf env c)
    (he : Early c'.log) : Early c.log ∨ EarlyPush env c i := by
  cases h with
  | acts ha => exact .inl (Acts.early ha hw he)
  | frames c₁ ha hl hearly hb =>
      rcases hearly with hopened | hearly
      · left
        obtain ⟨past, _, hp, rfl, hnot⟩ := Acts.early hb (Acts.wf ha hw).frameData he
        refine ⟨past, _, ?_, rfl, hnot⟩
        simp only [emit, hl] at hp
        rcases List.prefix_concat_iff.mp hp with heq | hp
        · obtain ⟨rfl, -⟩ := List.append_inj' heq rfl
          exact absurd hopened hnot
        · exact hp
      · exact .inr hearly

-- No push of the run is read as frames too early.
def Awaited (env : Env σ δ) (c : Conn σ δ) (inputs : List Input) : Prop :=
  Trace.AtEach (fun past i => ¬ EarlyPush env (run env c past) i) inputs

instance decidableAwaited (env : Env σ δ) (c : Conn σ δ) (inputs : List Input) :
    Decidable (Awaited env c inputs) :=
  inferInstanceAs (Decidable (Trace.AtEach _ inputs))

theorem run_not_early {c : Conn σ δ} (inputs : List Input) (hw : Wf env c) (hc : ¬ Early c.log)
    (ha : Awaited env c inputs) : ¬ Early (run env c inputs).log := by
  induction inputs using List.reverseRecOn with
  | nil => exact hc
  | append_singleton inputs i ih =>
      obtain ⟨ha, hi⟩ := (Trace.atEach_concat _ _ _).mp ha
      have hwr : Wf env (run env c inputs) :=
        (run_keeps (P := fun _ => True) (fun _ _ _ _ h => h) (fun _ _ h => h) inputs hw trivial).1
      rw [run, List.foldl_append]
      intro he
      rcases (step_stepped (run env c inputs) i hwr).early hwr he with he | he
      · exact ih ha he
      · exact hi he

theorem Entry.not_early {c : Conn σ δ} (h : Entry env c) : Wf env c ∧ ¬ Early c.log := by
  obtain ⟨c₀, hw, hlog, -, ha⟩ := h.acts
  refine ⟨Acts.wf ha hw, ?_⟩
  intro he
  obtain ⟨past, _, hp, -⟩ := hlog ▸ Acts.early ha hw he
  simp at hp

-- ---- a plain environment ----

-- zlib without a single valid stream.
def zlibNone : Zlib Unit Unit where
  inflateInit _ := none
  inflate _ _ _ _ := ⟨.error, (), 0, []⟩
  inflateReset _ := ()
  deflateInit _ _ := none
  deflateBound _ n := n
  deflate _ _ _ _ := ⟨.error, (), []⟩
  deflateReset _ := ()
  backlog _ _ := 0
  consumed_le := by intros; exact Nat.zero_le _
  out_le := by intros; exact Nat.zero_le _
  progress := by intro _ _ _ _ h; cases h
  backlog_le := by intros; exact le_rfl

-- A server whose calls succeed and whose callbacks do nothing.
def plainServer : Env Unit Unit where
  isClient := false
  recvCap := 1024
  subProtocol := []
  pingIntervalMs := 0
  enableDeflate := false
  deflateLevel := 6
  requestClientNoContextTakeover := false
  requestServerNoContextTakeover := false
  requestClientMaxWindowBits := 0
  requestServerMaxWindowBits := 0
  onOpen := some fun _ => []
  onMessage := some fun _ => []
  onPong := some fun _ => []
  onClose := some fun _ => []
  onError := some fun _ => []
  onHttpResponse := none
  zlib := zlibNone
  write _ := .ok
  alloc _ := true
  timer _ := true
  streamOpen _ := true
  random _ i := (ascii "the sample nonce").getD i 0
  uninit _ _ := 0

def plainClient : Env Unit Unit := { plainServer with isClient := true }

def sampleRequest : Bytes :=
  ascii "GET /chat HTTP/1.1\r\nHost: a\r\nUpgrade: websocket\r\nConnection: Upgrade\r\n" ++
    ascii "Sec-WebSocket-Key: dGhlIHNhbXBsZSBub25jZQ==\r\nSec-WebSocket-Version: 13\r\n\r\n"

def openServer : Conn Unit Unit :=
  run plainServer (start [] 0 [] 1) [.streamOpened, .data sampleRequest]

deriving instance DecidableEq for Deflate, Conn

theorem openServer_eq : openServer =
    { start [] 0 [] 1 with
      state := .opened
      stream := .opened
      log :=
        [.state .handshake,
          .upgradeOut (ascii "HTTP/1.1 101 Switching Protocols\r\n" ++ ascii "Upgrade: websocket\r\n" ++
            ascii "Connection: Upgrade\r\n" ++ ascii "Sec-WebSocket-Accept: " ++
            ascii "s3pPLMBiTxaQ9kYGzzhZRbK+xOo=\r\n\r\n") .ok,
          .state .opened, .onOpen, .openReturned] } := by
  decide +kernel

theorem run_append (env : Env σ δ) (c : Conn σ δ) (first rest : List Input) :
    run env c (first ++ rest) = run env (run env c first) rest :=
  List.foldl_append

theorem run_openServer (inputs : List Input) :
    run plainServer (start [] 0 [] 1) (.streamOpened :: .data sampleRequest :: inputs) =
      run plainServer openServer inputs := by
  rw [openServer, ← run_append, List.cons_append, List.cons_append, List.nil_append]

end Sevent.Ws.Conn
