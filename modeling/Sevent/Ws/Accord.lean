import Sevent.Ws.ClientOpen
import Sevent.Ws.Contexts

-- The client of a server of the library, and whether both have come to the same contexts.
namespace Sevent.Ws

variable {σ δ : Type} {env : Env σ δ}

namespace Conn

-- ---- the context of the client ----

-- The window that the client compresses with, as it has promised in its offer.
def sendBits (env : Env σ δ) : Nat :=
  if legalBits env.requestClientMaxWindowBits ≠ 0 then legalBits env.requestClientMaxWindowBits else 15

-- There is memory for a context, and zlib takes its windows.
def Granted (env : Env σ δ) (log : List Event) : Prop :=
  env.alloc log = true ∧
    (env.zlib.deflateInit (deflateLevelToZlib env.deflateLevel) (sendBits env)).isSome = true ∧
    (env.zlib.inflateInit 15).isSome = true

instance decidableGranted (env : Env σ δ) (log : List Event) : Decidable (Granted env log) :=
  inferInstanceAs (Decidable (_ ∧ _))

-- The answer confirms permessage-deflate.
def confirmed (buf : Bytes) : Bool := (strstrAfter pmd (parseResponse buf).2.extensions).isSome

-- Whenever an answer confirms the extension, the client gets the context it asks for.
def ContextGranted (env : Env σ δ) (log : List Event) : Prop :=
  ∀ past buf, past ++ [.response buf] <+: log → confirmed buf = true →
    Granted env (past ++ [.response buf])

-- permessage-deflate without a parameter
def bareTerms : Agreement := ⟨[], List.nodup_nil⟩

theorem bareTerms_bytes : bareTerms.bytes = pmd := List.append_nil pmd

theorem bareTerms_plain : bareTerms.Plain :=
  ⟨by rw [bareTerms_bytes]; decide, fun p hp => absurd hp List.not_mem_nil⟩

theorem agreedParams_bare (env : Env σ δ) : agreedParams env bareTerms =
    ⟨false, env.requestClientNoContextTakeover, 0, legalBits env.requestClientMaxWindowBits,
      env.deflateLevel⟩ := rfl

theorem deflateCreate_granted (env : Env σ δ) (log : List Event) :
    (deflateCreate env.zlib (env.alloc log) (agreedParams env bareTerms)).map Deflate.terms =
      if Granted env log then some (false, env.requestClientNoContextTakeover, 15, sendBits env)
      else none := by
  have hbits : (if (agreedParams env bareTerms).clientMaxWindowBits ≠ 0 then
      (agreedParams env bareTerms).clientMaxWindowBits else 15) = sendBits env := rfl
  have hfifteen : (if (agreedParams env bareTerms).serverMaxWindowBits ≠ 0 then
      (agreedParams env bareTerms).serverMaxWindowBits else 15) = 15 := rfl
  have hlevel : (agreedParams env bareTerms).compressionLevel = env.deflateLevel := rfl
  unfold deflateCreate
  dsimp only
  rw [hbits, hfifteen, hlevel]
  cases hall : env.alloc log with
  | false =>
      rw [if_neg fun hg : Granted env log => by cases hall.symm.trans hg.1]
      rfl
  | true =>
      cases hd : env.zlib.deflateInit (deflateLevelToZlib env.deflateLevel) (sendBits env) with
      | none =>
          rw [if_neg fun hg : Granted env log => by simpa [hd] using hg.2.1]
          rfl
      | some d =>
          cases hi : env.zlib.inflateInit 15 with
          | none =>
              rw [if_neg fun hg : Granted env log => by simpa [hi] using hg.2.2]
              rfl
          | some i =>
              have hg : Granted env log := ⟨hall, by rw [hd]; rfl, by rw [hi]; rfl⟩
              rw [if_pos hg]
              rfl

-- ---- the answer as it comes in ----

theorem parseResponse_part {key b rest : Bytes} (hkey : key.length ≤ 24) (confirm : Bool)
    (hb : b <+: upgradeAnswer key confirm ++ rest) :
    (parseResponse b).1 ≤ 0 ∨ ∃ more, b = upgradeAnswer key confirm ++ more := by
  rcases Nat.lt_or_ge b.length (upgradeAnswer key confirm).length with hlt | hge
  · have hnone : Http.findHdrEnd b = none := by
      by_contra hsome
      obtain ⟨i, hi⟩ := Option.ne_none_iff_exists'.mp hsome
      obtain ⟨t, ht⟩ := hb
      have hfields : ∀ f ∈ responseFields key confirm, Http.Field f := fun f hf =>
        (responseFields_ok hkey confirm f hf).1
      -- the block of the whole answer would end inside of `b`
      have hwhole := Http.findHdrEnd_headOf responseLine_parsed.1 hfields rest
      have hend := (Http.findHdrEnd_append hi t).symm.trans (ht ▸ hwhole)
      have hbound := Http.findHdrEnd_bound hi
      rw [upgradeAnswer, headOf_length] at hlt
      have := Option.some.inj hend
      omega
    have hmore : Http.parse b = .more := by
      unfold Http.parse
      rw [hnone]
    have hhead : parseHeadOnly b = 0 := by
      unfold parseHeadOnly
      rw [hnone]
    refine .inl ?_
    unfold parseResponse
    rw [hmore, hhead]
    split <;> simp
  · obtain ⟨more, hmore⟩ := List.prefix_of_prefix_length_le (List.prefix_append _ _) hb hge
    exact .inr ⟨more, hmore.symm⟩

-- ---- the client ----

-- A client that has opened on an answer, and its context.
def Met (env : Env σ δ) (confirm : Bool) (c : Conn σ δ) : Prop :=
  ∃ past buf after, confirmed buf = confirm ∧ (∀ e ∈ past ++ after, e.responseHead = none) ∧
    Behind (past ++ .response buf :: after)
      (if confirm = true ∧ Granted env (past ++ [.response buf]) then
        some (false, env.requestClientNoContextTakeover, 15, sendBits env) else none) c

theorem Met.step {confirm : Bool} {c : Conn σ δ} (h : Met env confirm c) (i : Input) :
    Met env confirm (step env c i) := by
  obtain ⟨past, buf, after, hconf, hnone, hb⟩ := h
  exact ⟨past, buf, after, hconf, hnone, hb.step i⟩

theorem negotiate_bare (hoffer : env.enableDeflate = true) {c : Conn σ δ} (hnone : c.deflate = none) :
    ∃ d, negotiate env pmd c =
        (true, { c with deflate := d, log := c.log ++ [.alloc (env.alloc c.log)] }) ∧
      d.map Deflate.terms =
        if Granted env c.log then some (false, env.requestClientNoContextTakeover, 15, sendBits env)
        else none := by
  have htaken : Taken env bareTerms := ⟨fun _ hv => (by cases hv), fun _ hv => (by cases hv)⟩
  have hneg := negotiate_taken bareTerms_plain hoffer htaken c
  rw [bareTerms_bytes, createDeflate_made _ hnone] at hneg
  exact ⟨_, hneg, deflateCreate_granted env c.log⟩

section

variable {c : Conn σ δ} (ho : ¬ Opened c.log) (hd : c.destroyed = false) (hs : c.stream = .opened)
  (hhand : c.state = .handshake)

include ho hd hs hhand

theorem fatal_dead (err : Int) : Dead (fatal env (notify env) err c) := by
  have hm := fatal_moves (notify_moves env) err c fun _ h => by cases hhand.symm.trans h
  refine .of_closed (fun h => ho (hm.opened_log h)) (fatal_over err fun h => ?_) fun h => ?_
  · cases hd.symm.trans h
  · cases hs.symm.trans (hm.opening h)

omit hhand in
-- The client that does not take the answer.
theorem turnedDown_dead (e : Event) (he : e.plain = true) :
    Dead (let c' := callback env env.onHttpResponse e c
      if c'.destroyed then c' else enterClosed (notify env) 0 [] c') := by
  extract_lets c'
  have hm : Moves env c c' := by
    simp only [c']
    cases hcb : env.onHttpResponse with
    | none => exact .refl
    | some cb => exact .head (Move.note c e he) (callback_moves env cb e c)
  have hhonest : Honest c' := hm.onward.honest fun h => by cases hd.symm.trans h
  have hm' : Moves env c (if c'.destroyed then c' else enterClosed (notify env) 0 [] c') := by
    split
    · exact hm
    · exact hm.trans (enterClosed_moves (notify_moves env) 0 [] c')
  refine .of_closed (fun h => ho (hm'.opened_log h)) ?_ fun h => ?_
  · split
    · exact hhonest ‹_›
    · exact enterClosed_over 0 [] hhonest
  · cases hs.symm.trans (hm'.opening h)

theorem clientEstablish_met {key : Bytes} {confirm : Bool} (ret : Nat) {past : List Event} {buf : Bytes}
    (hlog : c.log = past ++ [.response buf]) (hpast : ∀ e ∈ past, e.responseHead = none)
    (hnone : c.deflate = none) (hconf : confirmed buf = confirm) :
    Dead (clientEstablish env ret (answered key confirm) c) ∨
      Met env confirm (clientEstablish env ret (answered key confirm) c) := by
  have hopen : c.stream ≠ .opening := by simp [hs]
  unfold clientEstablish answered
  dsimp only
  cases confirm with
  | false =>
      have hneg : negotiate env [] c = (true, c) := by
        have hno : (strstrAfter pmd []).isSome = false := by decide
        unfold negotiate
        rw [hno, Bool.and_false]
        rfl
      have hext : (if false = true then pmd else []) = [] := rfl
      have hok : extensionsOk [] env.enableDeflate = true := rfl
      rw [hext, hok, hneg]
      refine .inr ⟨past, buf, [.state .opened], hconf, ?_, ?_⟩
      · intro e he
        rcases List.mem_append.mp he with he | he
        · exact hpast e he
        · rw [List.mem_singleton.mp he]
          rfl
      · have hb : Behind (c.log ++ [.state .opened]) c.terms (openUp env ret c) := openUp_behind ret hopen
        rw [hlog] at hb
        rw [if_neg (by simp)]
        simpa [terms, hnone] using hb
  | true =>
      rw [if_pos rfl]
      cases hoffer : env.enableDeflate with
      | false =>
          rw [if_pos (by decide)]
          exact .inl (fatal_dead ho hd hs hhand _)
      | true =>
          have hok : extensionsOk pmd true = true := bareTerms_bytes ▸ bareTerms.accepted
          obtain ⟨d, hneg, hterms⟩ := negotiate_bare hoffer hnone
          rw [hok, hneg]
          refine .inr ⟨past, buf, [.alloc (env.alloc c.log), .state .opened], hconf, ?_, ?_⟩
          · intro e he
            rcases List.mem_append.mp he with he | he
            · exact hpast e he
            · simp only [List.mem_cons, List.not_mem_nil, or_false] at he
              rcases he with rfl | rfl <;> rfl
          · set c₁ : Conn σ δ := { c with deflate := d, log := c.log ++ [.alloc (env.alloc c.log)] } with hc₁
            have hb : Behind (c₁.log ++ [.state .opened]) c₁.terms (openUp env ret c₁) := openUp_behind ret hopen
            have hL : c₁.log ++ [.state .opened] =
                past ++ .response buf :: [.alloc (env.alloc c.log), .state .opened] := by
              simp [hc₁, hlog]
            have hT : c₁.terms = if true = true ∧ Granted env (past ++ [.response buf]) then
                some (false, env.requestClientNoContextTakeover, 15, sendBits env) else none := by
              rw [← hlog]
              simpa [terms, hc₁] using hterms
            rw [hL, hT] at hb
            exact hb

end

section

variable {key rest R : Bytes} {confirm : Bool} (hkey : key.length ≤ 24)

include hkey

theorem confirmed_answer (more : Bytes) : confirmed (upgradeAnswer key confirm ++ more) = confirm := by
  unfold confirmed upgradeAnswer
  rw [parseResponse_answer hkey]
  have hwith : (strstrAfter pmd pmd).isSome = true := by decide
  have hwithout : (strstrAfter pmd []).isSome = false := by decide
  cases confirm with
  | false => exact hwithout
  | true => exact hwith

theorem handshakeDataClient_met {c : Conn σ δ} (h : Awaits env R c)
    (hs : c.stream = .opened) (hhand : c.state = .handshake) (hR : R <+: upgradeAnswer key confirm ++ rest) :
    Pending env R (handshakeDataClient env c) ∨ Met env confirm (handshakeDataClient env c) := by
  unfold handshakeDataClient
  rcases parseResponse_part hkey confirm (h.recv ▸ hR) with hle | ⟨more, hmore⟩
  · obtain ⟨ret, resp, hparse⟩ : ∃ ret resp, parseResponse c.recv = (ret, resp) := ⟨_, _, rfl⟩
    rw [hparse] at hle ⊢
    dsimp only at hle ⊢
    split
    · exact .inl (.inl h)
    · rw [if_pos (by omega)]
      refine .inl (fatal_pending _ ?_)
      cases hcb : env.onHttpResponse with
      | none => exact .inl h
      | some cb =>
          exact (callback_moves env cb _ c).pending ((Move.note c _ rfl).pending (.inl h))
  · -- the whole answer is there
    have hparse : parseResponse c.recv = (((upgradeAnswer key confirm).length : Int), answered key confirm) := by
      rw [hmore]
      exact parseResponse_answer hkey confirm more
    have hpos : 0 < (upgradeAnswer key confirm).length := by
      rw [upgradeAnswer, headOf_length]
      omega
    have hredirects : (answered key confirm).redirects = false := rfl
    rw [hparse]
    dsimp only
    rw [if_neg (by omega), if_neg (by omega), hredirects, if_neg (by decide)]
    set c₂ := c.emit (.response c.recv) with hc₂
    have ho₂ : c₂.log = c.log ++ [.response c.recv] := rfl
    have hopened : ¬ Opened c₂.log := by
      intro ho
      rcases List.mem_append.mp ho with ho | ho
      · exact h.unopened ho
      · cases List.mem_singleton.mp ho
    have hpast : ∀ e ∈ c.log, e.responseHead = none := by
      intro e he
      have := h.unuttered e he
      cases e <;> first | rfl | cases this
    have hopens : Dead (clientEstablish env ((upgradeAnswer key confirm).length : Int).toNat
        (answered key confirm) c₂) ∨ Met env confirm (clientEstablish env
          ((upgradeAnswer key confirm).length : Int).toNat (answered key confirm) c₂) :=
      clientEstablish_met hopened h.alive hs hhand _ ho₂ hpast h.deflate
        (hmore ▸ confirmed_answer hkey more)
    have hend : ∀ {c' : Conn σ δ}, Dead c' → Pending env R c' := fun h => .inr h
    split
    · split
      · exact .inl (hend (turnedDown_dead hopened h.alive hs _ rfl))
      · exact hopens.imp_left hend
    · split
      · exact .inl (hend (fatal_dead hopened h.alive hs hhand _))
      · exact hopens.imp_left hend

end

def AtClient (env : Env σ δ) (confirm : Bool) (R : Bytes) (c : Conn σ δ) : Prop :=
  Pending env R c ∨ Met env confirm c

theorem onStreamOpen_pending {R : Bytes} {c : Conn σ δ} (hclient : env.isClient = true) (h : Awaits env R c)
    (hs : c.stream = .opening) : Pending env R (onStreamOpen env { c with stream := .opened }) := by
  have hstate : c.state = .connecting := by
    rcases h.place with ⟨hstate, -⟩ | ⟨-, hne⟩
    · exact hstate
    · exact absurd hs hne
  unfold onStreamOpen
  rw [if_neg (by simp [hclient])]
  dsimp only
  split
  · refine fatal_pending _ (.inr (.of_state h.unopened ?_ ?_ (by simp)))
    · simp [hstate]
    · simp [hstate]
  · rename_i req _
    set c₁ : Conn σ δ := ({ c with stream := .opened, secWsKey := genKey (env.random c.log) }).setState .handshake
    have hw : streamWrite env (notify env) (.requestOut (genKey (env.random c.log)) req) c₁ =
        ((env.write c₁.log).ret, settle (notify env) (env.write c₁.log)
          (c₁.written (.requestOut (genKey (env.random c.log)) req (env.write c₁.log)) (env.write c₁.log))) :=
      streamWrite_eq env _ _ c₁ rfl
    have h₁ : Awaits env R c₁ := h.grow [.state .handshake] (.inr ⟨rfl, by simp [c₁, setState]⟩) rfl rfl
      (by simp [Event.later, Event.uttered])
    have h₂ : Awaits env R (c₁.written (.requestOut (genKey (env.random c.log)) req (env.write c₁.log))
        (env.write c₁.log)) := by
      refine h₁.grow [.requestOut (genKey (env.random c.log)) req (env.write c₁.log)] (.inr ⟨rfl, fun ho => ?_⟩)
        rfl rfl (by simp [Event.later, Event.uttered, hclient])
      cases written_opening ho
    have h₃ := (settle_moves (notify_moves env) (env.write c₁.log) _).pending (.inl h₂)
    rw [hw]
    dsimp only
    split
    · exact fatal_pending _ h₃
    · exact h₃

theorem AtClient.step {key rest R : Bytes} {confirm : Bool} (hkey : key.length ≤ 24)
    (hclient : env.isClient = true) {c : Conn σ δ} (h : AtClient env confirm R c) (i : Input)
    (hR : R ++ (if c.stream = .opened then i.bytes else []) <+: upgradeAnswer key confirm ++ rest) :
    AtClient env confirm (R ++ if c.stream = .opened then i.bytes else []) (step env c i) := by
  rcases h with (h | h) | h
  · have hnothing : i.bytes = [] → R ++ (if c.stream = .opened then i.bytes else []) = R := by
      intro hb
      rw [hb, ite_self, List.append_nil]
    cases i with
    | streamOpened =>
        rw [hnothing rfl]
        simp only [Conn.step]
        split
        · exact .inl (onStreamOpen_pending hclient h ‹_›)
        · exact .inl (.inl h)
    | data d =>
        simp only [Conn.step]
        by_cases hs : c.stream = .opened
        · rw [if_pos hs] at hR ⊢
          rw [if_pos hs]
          have hhand : c.state = .handshake := by
            rcases h.place with ⟨-, hopening⟩ | ⟨hhand, -⟩
            · cases hs.symm.trans hopening
            · exact hhand
          unfold onData
          rw [if_neg (by simp [h.not_gone])]
          have h₁ : Awaits env (R ++ d) { c with recv := c.recv ++ d } :=
            ⟨h.place, h.alive, by rw [h.recv], h.deflate, h.unopened, h.unuttered⟩
          split
          · exact .inl (.inr (fatal_dead h.unopened h.alive hs hhand _))
          · dsimp only
            rw [if_pos hhand]
            have hrole : handshakeData env { c with recv := c.recv ++ d } =
                handshakeDataClient env { c with recv := c.recv ++ d } := by
              unfold handshakeData
              rw [if_pos hclient]
            rw [hrole]
            exact handshakeDataClient_met hkey h₁ hs hhand hR
        · rw [if_neg hs, if_neg hs, List.append_nil]
          exact .inl (.inl h)
    | _ =>
        rw [hnothing rfl]
        exact .inl (Pending.step (.inl h) (by simp) (by simp))
  · exact .inl (.inr ((h.2.step i).dead h.1))
  · exact .inr (h.step i)

theorem client_run {key rest : Bytes} {confirm : Bool} (hkey : key.length ≤ 24)
    (hclient : env.isClient = true) (inputs : List Input) {R : Bytes} {c : Conn σ δ}
    (h : AtClient env confirm R c) (hR : R ++ received env c inputs <+: upgradeAnswer key confirm ++ rest) :
    ∃ R', AtClient env confirm R' (run env c inputs) := by
  induction inputs generalizing R c with
  | nil => exact ⟨R, h⟩
  | cons i more ih =>
      rw [received, ← List.append_assoc] at hR
      exact ih (h.step hkey hclient i ((List.prefix_append _ _).trans hR)) hR

-- ---- both ends ----

-- What one end compresses, the other can inflate. The fields named after the client are those of the
-- compressor on either end, the ones named after the server those of the decompressor.
structure Matches {σ' δ' : Type} (sender : Deflate σ δ) (receiver : Deflate σ' δ') : Prop where
  window : sender.clientWindowBits ≤ receiver.serverWindowBits
  reset : receiver.serverNoContextTakeover = true → sender.clientNoContextTakeover = true

structure Accord {σ' δ' : Type} (client : Option (Deflate σ δ)) (server : Option (Deflate σ' δ')) : Prop where
  both : client.isSome = server.isSome
  toServer : ∀ dc ∈ client, ∀ ds ∈ server, Matches dc ds
  toClient : ∀ dc ∈ client, ∀ ds ∈ server, Matches ds dc

theorem accord_iff {σ' δ' : Type} {client : Option (Deflate σ δ)} {server : Option (Deflate σ' δ')}
    {confirm nct nct' : Bool} {granted : Prop} [Decidable granted] {bits : Nat} (hbits : bits ≤ 15)
    (hc : client.map Deflate.terms = if confirm = true ∧ granted then some (false, nct, 15, bits) else none)
    (hs : server.map Deflate.terms = if confirm then some (false, nct', 15, 15) else none) :
    Accord client server ↔ (confirm = true → granted) := by
  have hclient : ∀ dc ∈ client, dc.terms = (false, nct, 15, bits) := by
    rintro dc rfl
    split at hc
    · exact Option.some.inj hc
    · cases hc
  have hserver : ∀ ds ∈ server, ds.terms = (false, nct', 15, 15) := by
    rintro ds rfl
    split at hs
    · exact Option.some.inj hs
    · cases hs
  have hfits : ∀ dc ∈ client, ∀ ds ∈ server, Matches dc ds ∧ Matches ds dc := by
    intro dc hdc ds hds
    have htc := hclient dc hdc
    have hts := hserver ds hds
    simp only [Deflate.terms, Prod.mk.injEq] at htc hts
    refine ⟨⟨?_, fun h => ?_⟩, ⟨?_, fun h => ?_⟩⟩
    · omega
    · cases hts.1.symm.trans h
    · omega
    · cases htc.1.symm.trans h
  have hboth : client.isSome = server.isSome ↔ (confirm = true → granted) := by
    rw [← Option.isSome_map (f := Deflate.terms), hc, ← Option.isSome_map (f := Deflate.terms), hs]
    cases confirm <;> by_cases hg : granted <;> simp [hg]
  exact ⟨fun h => hboth.mp h.both, fun h => ⟨hboth.mpr h, fun dc hdc ds hds => (hfits dc hdc ds hds).1,
    fun dc hdc ds hds => (hfits dc hdc ds hds).2⟩⟩

theorem sendBits_le (env : Env σ δ) : sendBits env ≤ 15 := by
  unfold sendBits legalBits
  split_ifs <;> omega

-- The only answer that the client has taken is the one it has opened on.
theorem contextGranted_iff {past after l : List Event} {buf : Bytes} {log : List Event}
    (hlog : log = past ++ .response buf :: after ++ l)
    (hnone : ∀ e ∈ past ++ after, e.responseHead = none) (hl : ∀ e ∈ l, e.later = true) :
    ContextGranted env log ↔ (confirmed buf = true → Granted env (past ++ [.response buf])) := by
  constructor
  · intro h
    refine h past buf ⟨after ++ l, ?_⟩
    rw [hlog]
    simp
  · rintro h past' buf' ⟨t, ht⟩ hconf
    have hother : ∀ e ∈ past ++ (after ++ l), ¬ e.responseHead.isSome = true := by
      intro e he
      rw [← List.append_assoc] at he
      rcases List.mem_append.mp he with he | he
      · simp [hnone e he]
      · have := hl e he
        cases e <;> first | (rintro ⟨⟩; done) | cases this
    have hsplit : past ++ .response buf :: (after ++ l) = past' ++ .response buf' :: t := by
      rw [List.append_assoc] at ht
      rw [← List.cons_append, ← List.append_assoc, ← hlog, ← ht]
      rfl
    obtain ⟨rfl, heq, -⟩ := Trace.split_unique hother rfl rfl hsplit
    cases heq
    exact h hconf

-- Whatever the server has been sent and whenever either end has come to OPEN.
theorem contexts_accord_iff {σ' δ' : Type} (ce : Env σ δ) (se : Env σ' δ') (hclient : ce.isClient = true)
    (hserver : se.isClient = false) (host : Bytes) (port : Nat) (path : Bytes) (seed : UInt32)
    {s : Conn σ' δ'} (hentry : Entry se s) (ci si : List Input)
    (hlink : received ce (start host port path seed) ci <+: sent (run se s si).log)
    (hc : Opened (run ce (start host port path seed) ci).log) (hs : Opened (run se s si).log) :
    Accord (run ce (start host port path seed) ci).deflate (run se s si).deflate ↔
      ContextGranted ce (run ce (start host port path seed) ci).log := by
  obtain ⟨key, confirm, hkey, L, nct', hsent, hb⟩ : ∃ key confirm, Served key confirm (run se s si) := by
    rcases server_run hserver si hentry.atServer with ⟨R, h⟩ | h
    · exact absurd hs h.unopened
    · exact h
  obtain ⟨l, hl, -⟩ := hb.log
  obtain ⟨rest, hrest⟩ : upgradeAnswer key confirm <+: sent (run se s si).log :=
    hsent.trans (sent_mono (hl ▸ List.prefix_append L l))
  have hstart : AtClient ce confirm [] (start host port path seed) :=
    .inl (.inl ⟨.inl ⟨rfl, rfl⟩, rfl, rfl, rfl, by simp [Opened, start], by simp [start]⟩)
  obtain ⟨past, buf, after, hconf, hnone, hb'⟩ : Met ce confirm (run ce (start host port path seed) ci) := by
    rw [← hrest] at hlink
    obtain ⟨R, h | h⟩ := client_run hkey hclient ci hstart (by rwa [List.nil_append])
    · exact absurd hc h.unopened
    · exact h
  obtain ⟨l', hl', hlater⟩ := hb'.log
  rw [contextGranted_iff hl' hnone hlater, hconf]
  exact accord_iff (sendBits_le ce) hb'.terms hb.terms

-- ---- two runs ----

-- zlib has no raw deflate with a window of 2^8 bytes.
def zlibNoEight : Zlib Unit Unit :=
  { zlibReady with deflateInit := fun _ bits => if bits = 8 then none else some () }

def offering (bits : Nat) : Env Unit Unit :=
  { deflateClient with requestClientMaxWindowBits := bits, zlib := zlibNoEight }

def confirmingServer : Env Unit Unit := { plainServer with enableDeflate := true, zlib := zlibNoEight }

-- What a client that offers a window writes, and what the server answers to it.
def asking (bits : Nat) : Bytes :=
  sent (run (offering bits) (start (ascii "h") 80 (ascii "/") 1) [.streamOpened]).log

def answering (bits : Nat) : Bytes :=
  sent (run confirmingServer (start [] 0 [] 1) [.streamOpened, .data (asking bits)]).log

theorem contexts_accord_nine :
    Accord (run (offering 9) (start (ascii "h") 80 (ascii "/") 1)
        [.streamOpened, .data (answering 9)]).deflate
      (run confirmingServer (start [] 0 [] 1) [.streamOpened, .data (asking 9)]).deflate := by
  obtain ⟨hlink, hc, hs⟩ : received (offering 9) (start (ascii "h") 80 (ascii "/") 1)
        [.streamOpened, .data (answering 9)] <+:
          sent (run confirmingServer (start [] 0 [] 1) [.streamOpened, .data (asking 9)]).log ∧
      Opened (run (offering 9) (start (ascii "h") 80 (ascii "/") 1)
        [.streamOpened, .data (answering 9)]).log ∧
      Opened (run confirmingServer (start [] 0 [] 1) [.streamOpened, .data (asking 9)]).log := by
    decide +kernel
  exact (contexts_accord_iff (offering 9) confirmingServer rfl rfl (ascii "h") 80 (ascii "/") 1
    (.start [] 0 [] 1) _ _ hlink hc hs).mpr fun past buf _ _ => ⟨rfl, rfl, rfl⟩

-- Each end has all that the other has written, and the client opens without the context that both
-- have agreed on.
theorem context_missing :
    received confirmingServer (start [] 0 [] 1) [.streamOpened, .data (asking 8)] =
        sent (run (offering 8) (start (ascii "h") 80 (ascii "/") 1)
          [.streamOpened, .data (answering 8)]).log ∧
      received (offering 8) (start (ascii "h") 80 (ascii "/") 1) [.streamOpened, .data (answering 8)] =
        sent (run confirmingServer (start [] 0 [] 1) [.streamOpened, .data (asking 8)]).log ∧
      Opened (run (offering 8) (start (ascii "h") 80 (ascii "/") 1)
        [.streamOpened, .data (answering 8)]).log ∧
      Opened (run confirmingServer (start [] 0 [] 1) [.streamOpened, .data (asking 8)]).log ∧
      ¬ Accord (run (offering 8) (start (ascii "h") 80 (ascii "/") 1)
          [.streamOpened, .data (answering 8)]).deflate
        (run confirmingServer (start [] 0 [] 1) [.streamOpened, .data (asking 8)]).deflate := by
  obtain ⟨hto, hfrom, hc, hs, hclient, hserver⟩ :
      received confirmingServer (start [] 0 [] 1) [.streamOpened, .data (asking 8)] =
        sent (run (offering 8) (start (ascii "h") 80 (ascii "/") 1)
          [.streamOpened, .data (answering 8)]).log ∧
      received (offering 8) (start (ascii "h") 80 (ascii "/") 1) [.streamOpened, .data (answering 8)] =
        sent (run confirmingServer (start [] 0 [] 1) [.streamOpened, .data (asking 8)]).log ∧
      Opened (run (offering 8) (start (ascii "h") 80 (ascii "/") 1)
        [.streamOpened, .data (answering 8)]).log ∧
      Opened (run confirmingServer (start [] 0 [] 1) [.streamOpened, .data (asking 8)]).log ∧
      (run (offering 8) (start (ascii "h") 80 (ascii "/") 1)
        [.streamOpened, .data (answering 8)]).deflate.isSome = false ∧
      (run confirmingServer (start [] 0 [] 1) [.streamOpened, .data (asking 8)]).deflate.isSome = true := by
    decide +kernel
  refine ⟨hto, hfrom, hc, hs, fun h => ?_⟩
  cases hclient.symm.trans (h.both.trans hserver)

end Conn

end Sevent.Ws
