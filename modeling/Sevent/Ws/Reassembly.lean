import Sevent.Ws.Pump
import Sevent.Ws.Sink

-- A sink behind the frame loop is fed the payloads of the messages in order, whichever way their
-- frames take.
namespace Sevent.Ws

variable {σ δ : Type}

open Conn

-- OPEN between two messages, with nothing buffered.
structure Conn.Idle (c : Conn σ δ) : Prop where
  state : c.state = .opened
  stream : c.stream = .opened
  alive : c.destroyed = false
  recv : c.recv = []
  mode : c.msg.mode = .none
  compressed : c.msg.compressed = false
  frag : c.frag = []
  remaining : c.streamRemaining = 0

instance Conn.decidableIdle (c : Conn σ δ) : Decidable c.Idle :=
  decidable_of_iff
    (c.state = .opened ∧ c.stream = .opened ∧ c.destroyed = false ∧ c.recv = [] ∧
      c.msg.mode = .none ∧ c.msg.compressed = false ∧ c.frag = [] ∧ c.streamRemaining = 0)
    ⟨fun ⟨h₁, h₂, h₃, h₄, h₅, h₆, h₇, h₈⟩ => ⟨h₁, h₂, h₃, h₄, h₅, h₆, h₇, h₈⟩,
      fun h => ⟨h.state, h.stream, h.alive, h.recv, h.mode, h.compressed, h.frag, h.remaining⟩⟩

namespace Sink

variable {env : Env σ δ} (S : Sink env)

-- ---- where a message stands ----

-- The messages that the sink takes.
def opens (f : WireFrame) : Bool := if S.compressed then f.opensCompressed else f.opensBinary

-- `part` of the next message is known, and the frames `fs` are to come. `fin` = it is all of it.
def Owed (done : List (Bytes × Bytes)) (part : Bytes) (fin : Bool) (fs : List WireFrame) : Prop :=
  ∃ m rest, S.all = done ++ m :: rest ∧ part <+: m.1 ∧
    (fin = true → m.1 = part ∧ rest.map Prod.fst = messages [] fs) ∧
    (fin = false → (m :: rest).map Prod.fst = messages part fs)

-- Between two frames, but for the bytes of the buffer.
structure Caught (c : Conn σ δ) (fs : List WireFrame) (done : List (Bytes × Bytes)) (part : Bytes) :
    Prop where
  alive : c.destroyed = false
  just : Justified S.since c
  frag_le : c.frag.length ≤ env.recvCap
  legal : Legal S.opens env.isClient (decide (c.msg.mode ≠ .none)) fs
  held : S.Held c done part
  due : ∃ rest, S.all = done ++ rest ∧ rest.map Prod.fst = messages part fs
  none : c.msg.mode = .none → part = [] ∧ c.msg.compressed = false
  active : c.msg.mode ≠ .none → S.Active c done

-- In a streamed frame: `r` of its payload is to come.
structure Inside (c : Conn σ δ) (r : Bytes) (fs : List WireFrame) (done : List (Bytes × Bytes))
    (part : Bytes) : Prop where
  alive : c.destroyed = false
  just : Justified S.since c
  mode : c.msg.mode = .stream
  frag : c.frag = []
  legal : Legal S.opens env.isClient (!c.streamFin) fs
  holds : S.Holds c done part
  owed : S.Owed done (part ++ r) c.streamFin fs
  active : S.Active c done

-- What has been taken in are the first messages, and a part of the next one.
def Right (c : Conn σ δ) : Prop :=
  ∃ done part rest, S.Holds c done part ∧ S.all = done ++ rest ∧
    (part = [] ∨ ∃ m more, rest = m :: more ∧ part <+: m.1)

-- The connection is over by a fault, and what has been delivered is right.
def Sound (c : Conn σ δ) : Prop := S.Right c ∧ Faulty S.since c.log

variable {S}

theorem Caught.right {c : Conn σ δ} {fs done part} (h : S.Caught c fs done part) : S.Right c := by
  obtain ⟨fed, hholds, hpart⟩ := h.held
  obtain ⟨rest, hall, hmap⟩ := h.due
  refine ⟨done, fed, rest, hholds, hall, ?_⟩
  by_cases hmode : c.msg.mode = .none
  · have hnil := hpart.trans (h.none hmode).1
    exact .inl (List.append_eq_nil_iff.mp hnil).1
  · have hlegal : Legal S.opens env.isClient true fs := by simpa [hmode] using h.legal
    obtain ⟨m, more, hm, hp⟩ := messages_inside part hlegal
    obtain ⟨m', more', rfl, rfl, -⟩ := List.map_eq_cons_iff.mp (hmap.trans hm)
    exact .inr ⟨m', more', rfl, (hpart ▸ List.prefix_append _ _).trans hp⟩

theorem Inside.right {c : Conn σ δ} {r fs done part} (h : S.Inside c r fs done part) :
    S.Right c := by
  obtain ⟨m, rest, hall, hp, -⟩ := h.owed
  exact ⟨done, part, m :: rest, h.holds, hall,
    .inr ⟨m, rest, rfl, (List.prefix_append _ _).trans hp⟩⟩

theorem Sound.aside {c c' : Conn σ δ} (h : S.Sound c) (ha : Aside c c') : S.Sound c' := by
  obtain ⟨⟨done, part, rest, hholds, hp⟩, hf⟩ := h
  exact ⟨⟨done, part, rest, S.keep ha.silent.unheard ha.rx.inflate hholds, hp⟩, hf.mono ha.log⟩

-- The next data frame.
theorem Caught.owed {c : Conn σ δ} {f : WireFrame} {fs done part}
    (h : S.Caught c (f :: fs) done part) (hc : f.control = false) :
    S.Owed done (part ++ f.payload) f.fin fs := by
  obtain ⟨rest, hall, hmap⟩ := h.due
  obtain ⟨-, hlegal⟩ := h.legal
  simp only [hc, Bool.false_eq_true, if_false] at hlegal
  simp only [messages, hc, Bool.false_eq_true, if_false] at hmap
  cases hf : f.fin with
  | true =>
      simp only [hf, if_true] at hmap
      obtain ⟨m, rest', rfl, hm, hrest⟩ := List.map_eq_cons_iff.mp hmap
      exact ⟨m, rest', hall, hm ▸ List.prefix_rfl, fun _ => ⟨hm, hrest⟩, fun h => by cases h⟩
  | false =>
      simp only [hf, Bool.false_eq_true, if_false] at hmap
      rw [hf] at hlegal
      obtain ⟨m, more, hm, hp⟩ := messages_inside (part ++ f.payload) hlegal.2
      obtain ⟨m', rest', rfl, hm', -⟩ := List.map_eq_cons_iff.mp (hmap.trans hm)
      exact ⟨m', rest', hall, hm' ▸ hp, (fun h => by cases h), fun _ => hmap⟩

-- The message is over.
theorem Caught.over {c c' : Conn σ δ} {fs done part m rest} (hd : c'.destroyed = false)
    (hj : Justified S.since c') (hcl : Cleared c c') (hholds : S.Holds c' (done ++ [m]) [])
    (hall : S.all = done ++ m :: rest) (hrest : rest.map Prod.fst = messages [] fs)
    (hlegal : Legal S.opens env.isClient false fs) (hp : part = []) :
    S.Caught c' fs (done ++ [m]) part := by
  subst hp
  refine ⟨hd, hj, by simp [hcl.frag], by simpa [hcl.mode] using hlegal, ⟨[], hholds, by simp [hcl.frag]⟩,
    ⟨rest, by simp [hall], hrest⟩, fun _ => ⟨rfl, hcl.compressed⟩, fun h => absurd hcl.mode h⟩

-- The message goes on.
theorem Caught.going {c : Conn σ δ} {fs done part} (hd : c.destroyed = false)
    (hj : Justified S.since c) (ha : S.Active c done)
    (hfrag : c.frag.length ≤ env.recvCap) (hheld : S.Held c done part)
    (howed : S.Owed done part false fs) (hlegal : Legal S.opens env.isClient true fs) :
    S.Caught c fs done part := by
  obtain ⟨m, rest, hall, -, -, hmap⟩ := howed
  exact ⟨hd, hj, hfrag, by simpa [ha.mode] using hlegal, hheld, ⟨m :: rest, hall, hmap rfl⟩,
    fun h => absurd h ha.mode, fun _ => ha⟩

theorem Caught.legal_data {c : Conn σ δ} {f : WireFrame} {fs done part}
    (h : S.Caught c (f :: fs) done part) (hc : f.control = false) :
    (if c.msg.mode = .none then
      (f.opcode = Opcode.binary ∨ S.compressed = true ∧ f.opcode = Opcode.text) ∧
        f.rsv1 = S.compressed
      else f.opcode = Opcode.cont ∧ f.rsv1 = false) ∧
    Legal S.opens env.isClient (!f.fin) fs := by
  obtain ⟨-, hlegal⟩ := h.legal
  simp only [hc, Bool.false_eq_true, if_false, decide_eq_true_eq] at hlegal
  refine ⟨?_, hlegal.2⟩
  by_cases hmode : c.msg.mode = .none
  · have hopens : S.opens f = true := by simpa [hmode] using hlegal.1
    rw [if_pos hmode]
    unfold opens at hopens
    cases hs : S.compressed with
    | true =>
        rw [if_pos hs] at hopens
        simp only [WireFrame.opensCompressed, Bool.and_eq_true, Bool.or_eq_true, beq_iff_eq] at hopens
        tauto
    | false =>
        rw [if_neg (by simp [hs])] at hopens
        simp only [WireFrame.opensBinary, Bool.and_eq_true, Bool.not_eq_true', beq_iff_eq] at hopens
        tauto
  · rw [if_neg hmode]
    simpa [hmode] using hlegal.1

-- A message starts here.
theorem Caught.start {c : Conn σ δ} {fs done part} (h : S.Caught c fs done part)
    (hmode : c.msg.mode = .none) : S.Holds c done [] ∧ part = [] ∧ c.frag = [] := by
  obtain ⟨fed, hholds, hpart⟩ := h.held
  obtain ⟨hnil, -⟩ := h.none hmode
  obtain ⟨rfl, hfrag⟩ := List.append_eq_nil_iff.mp (hpart.trans hnil)
  exact ⟨hholds, hnil, hfrag⟩

theorem Caught.recv {c : Conn σ δ} {fs done part} (h : S.Caught c fs done part) (b : Bytes) :
    S.Caught { c with recv := b } fs done part := by
  obtain ⟨fed, hholds, hpart⟩ := h.held
  exact ⟨h.alive, ⟨h.just.le, h.just.state, h.just.stream, h.just.closed⟩, h.frag_le, h.legal,
    ⟨fed, same hholds, hpart⟩, h.due, h.none,
    fun hm => (h.active hm).of_msg rfl⟩

theorem Caught.aside {c c' : Conn σ δ} {fs done part} (h : S.Caught c fs done part)
    (ha : Aside c c') (hc : Calm c c') : S.Caught c' fs done part := by
  obtain ⟨fed, hholds, hpart⟩ := h.held
  have hmsg := ha.rx.msg
  refine ⟨ha.destroyed, hc.keeps _ h.just, ha.rx.frag ▸ h.frag_le, hmsg ▸ h.legal,
    ⟨fed, S.keep ha.silent.unheard ha.rx.inflate hholds, ha.rx.frag ▸ hpart⟩, h.due, hmsg ▸ h.none, ?_⟩
  rw [hmsg]
  exact fun hm => (h.active hm).kept (.of_same ha.rx.sameBuf)

theorem Caught.noted {c : Conn σ δ} {fs done part} (h : S.Caught c fs done part) (e : Event)
    (he : e.delivers = false) : S.Caught (c.emit e) fs done part := by
  obtain ⟨fed, hholds, hpart⟩ := h.held
  exact ⟨h.alive, (emit_calm h.alive e).keeps _ h.just, h.frag_le, h.legal,
    ⟨fed, S.noted hholds e he, hpart⟩, h.due, h.none, fun hm => (h.active hm).of_msg rfl⟩

-- ---- frames that are in the buffer as a whole ----

section

variable (hg : env.Gentle) (hm : env.onMessage.isSome = true) (hcap : 0 < env.recvCap)

include hg hm hcap

-- frag_append and frag_flush, on a message that has begun.
theorem append_caught {c : Conn σ δ} {fs done part} (fin : Bool) (payload : Bytes)
    (hd : c.destroyed = false) (hj : Justified S.since c) (ha : S.Active c done)
    (hfrag : c.frag.length ≤ env.recvCap) (hheld : S.Held c done part)
    (howed : S.Owed done (part ++ payload) fin fs)
    (hlegal : Legal S.opens env.isClient (!fin) fs) (hlen : payload.length ≤ env.recvCap)
    (hclean : S.Clean (fragFlush env fin (fragAppend env payload c).2).log) :
    SameFrame c (fragFlush env fin (fragAppend env payload c).2) ∧
      ∃ done' part', S.Caught (fragFlush env fin (fragAppend env payload c).2) fs done' part' := by
  have hmild := fragAppend_calm hg hm payload hd
  have hflush := fragFlush_mild hg hm fin hmild.destroyed
  obtain ⟨m, rest, hall, hp, hfin, hmore⟩ := howed
  obtain ⟨hkept, hheld₁, hfrag₁⟩ := fragAppend_held hg hm hd ha hheld hall payload hp hlen
    hfrag (S.clean_mono hflush.log hclean)
  have ha₁ := ha.kept hkept
  generalize (fragAppend env payload c).2 = c₁ at *
  have hj' := (hmild.trans (fragFlush_calm hg hm fin hmild.destroyed ha₁.known)).keeps _ hj
  cases fin with
  | true =>
      obtain ⟨hm₁, hrest⟩ := hfin rfl
      obtain ⟨hcl, hholds⟩ := fragFlush_finish hg hm hmild.destroyed ha₁ (hm₁ ▸ hheld₁) hall hcap
        hfrag₁ hclean
      exact ⟨hkept.toSameFrame.trans hcl.toSameFrame, done ++ [m], [],
        .over hflush.destroyed hj' hcl hholds hall hrest hlegal rfl⟩
  | false =>
      obtain ⟨hkept₂, hheld₂, hfrag₂⟩ := fragFlush_more hg hm hmild.destroyed ha₁ hheld₁ hall hp hcap
        hfrag₁ hclean
      exact ⟨hkept.toSameFrame.trans hkept₂.toSameFrame, done, part ++ payload,
        .going hflush.destroyed hj' (ha₁.kept hkept₂) hfrag₂ hheld₂
          ⟨m, rest, hall, hp, (fun h => by cases h), hmore⟩ hlegal⟩

theorem handleCont_caught {c : Conn σ δ} {f : WireFrame} {fs done part}
    (h : S.Caught c (f :: fs) done part) (hc : f.control = false) (hmode : c.msg.mode ≠ .none)
    (hlen : f.payload.length ≤ env.recvCap)
    (hclean : S.Clean (handleCont env f.header f.payload c).2.log) :
    (handleCont env f.header f.payload c).1 = 0 ∧
      SameFrame c (handleCont env f.header f.payload c).2 ∧
      ∃ done' part', S.Caught (handleCont env f.header f.payload c).2 fs done' part' := by
  unfold handleCont at hclean ⊢
  rw [if_neg hmode] at hclean ⊢
  have hcaught₀ := h.noted
    (.dataFrame f.header.opcode f.header.payloadLen f.header.fin c.msg.compressed) rfl
  have hframe₀ : SameFrame c (c.emit (.dataFrame f.header.opcode f.header.payloadLen f.header.fin
    c.msg.compressed)) := .of_fields rfl
  have hmode₀ : (c.emit (.dataFrame f.header.opcode f.header.payloadLen f.header.fin
    c.msg.compressed)).msg.mode ≠ .none := hmode
  dsimp only at hclean ⊢
  generalize c.emit (.dataFrame f.header.opcode f.header.payloadLen f.header.fin
    c.msg.compressed) = c₀ at *
  have hmild := fragAppend_calm hg hm f.payload hcaught₀.alive
  have hflush := fragFlush_mild hg hm f.fin hmild.destroyed
  rw [if_neg (by simp [fragAppend_ret hlen])] at hclean ⊢
  obtain ⟨hframe, hcaught⟩ := append_caught hg hm hcap f.fin f.payload hcaught₀.alive hcaught₀.just
    (hcaught₀.active hmode₀) hcaught₀.frag_le hcaught₀.held (hcaught₀.owed hc)
    (hcaught₀.legal_data hc).2 hlen hclean
  exact ⟨by simp [hflush.destroyed], hframe₀.trans hframe, hcaught⟩

omit hcap in
-- An uncompressed message in one frame.
theorem handleSingle_caught {c : Conn σ δ} {f : WireFrame} {fs done} (hs : S.compressed = false)
    (hd : c.destroyed = false) (hj : Justified S.since c) (hmode : c.msg.mode = .none)
    (hcomp : c.msg.compressed = false) (hfrag : c.frag = []) (hholds : S.Holds c done [])
    (hop : f.opcode = Opcode.binary) (howed : S.Owed done f.payload true fs)
    (hlegal : Legal S.opens env.isClient false fs) :
    (handleSingle env f.header f.payload c).1 = 0 ∧
      SameFrame c (handleSingle env f.header f.payload c).2 ∧
      ∃ done' part', S.Caught (handleSingle env f.header f.payload c).2 fs done' part' := by
  obtain ⟨m, rest, hall, -, hfin, -⟩ := howed
  obtain ⟨hm₁, hrest⟩ := hfin rfl
  have hmild := message_calm hg .frame f.payload (f.header.opcode == Opcode.binary) true
    f.header.payloadLen hd
  have hsame := message_sameBuf hg hm .frame f.payload (f.header.opcode == Opcode.binary) true
    f.header.payloadLen hd
  have hholds₁ := S.finish hs hd hholds hall .frame f.payload (f.header.opcode == Opcode.binary)
    f.header.payloadLen hm₁
  unfold handleSingle
  rw [if_neg (by simp [hop, Opcode.text, Opcode.binary]), if_pos hm]
  generalize message env .frame f.payload (f.header.opcode == Opcode.binary) true f.header.payloadLen c = c₁
    at *
  have hcl : Cleared c c₁ :=
    ⟨hsame.toSameFrame, hsame.msg ▸ hmode, hsame.msg ▸ hcomp, hsame.frag.trans hfrag⟩
  exact ⟨by simp [hmild.destroyed], hcl.toSameFrame, done ++ [m], [],
    .over hmild.destroyed (hmild.keeps _ hj) hcl hholds₁ hall hrest hlegal rfl⟩

-- The first frame of a message in several frames.
theorem first_caught {c : Conn σ δ} {f : WireFrame} {fs done} (hd : c.destroyed = false)
    (hj : Justified S.since c) (hcomp : c.msg.compressed = S.compressed) (hfrag : c.frag = [])
    (hholds : S.Holds c done []) (hop : S.compressed = false → f.opcode = Opcode.binary)
    (hsplit : S.compressed = true → S.Split done) (howed : S.Owed done f.payload false fs)
    (hlegal : Legal S.opens env.isClient true fs) (hlen : f.payload.length ≤ env.recvCap) {c₁ : Conn σ δ}
    (hc₁ : c₁ = { c with msg := { c.msg with
      opcode := f.opcode, total := 0, finSent := false, mode := .frag } })
    (hclean : S.Clean (fragFlush env false (fragAppend env f.payload c₁).2).log) :
    SameFrame c (fragFlush env false (fragAppend env f.payload c₁).2) ∧
      ∃ done' part', S.Caught (fragFlush env false (fragAppend env f.payload c₁).2) fs done' part' := by
  have hd₁ : c₁.destroyed = false := by rw [hc₁]; exact hd
  have hj₁ : Justified S.since c₁ := by rw [hc₁]; exact ⟨hj.le, hj.state, hj.stream, hj.closed⟩
  have hframe : SameFrame c c₁ := by rw [hc₁]; exact .of_fields rfl
  have hfrag₁ : c₁.frag = [] := by rw [hc₁]; exact hfrag
  have hholds₁ : S.Holds c₁ done [] := by rw [hc₁]; exact same hholds
  have ha : S.Active c₁ done := by
    rw [hc₁]
    exact ⟨by simp, hcomp, hop, rfl, hsplit⟩
  have hheld : S.Held c₁ done [] := ⟨[], hholds₁, by simp [hfrag₁]⟩
  obtain ⟨hframe', hcaught⟩ := append_caught hg hm hcap false f.payload hd₁ hj₁ ha (by simp [hfrag₁])
    hheld howed hlegal hlen hclean
  exact ⟨hframe.trans hframe', hcaught⟩

theorem handleTextBinary_caught {c : Conn σ δ} {f : WireFrame} {fs done part}
    (h : S.Caught c (f :: fs) done part) (hc : f.control = false) (hmode : c.msg.mode = .none)
    (hone : S.compressed = true → f.fin = false) (hlen : f.payload.length ≤ env.recvCap)
    (hclean : S.Clean (handleTextBinary env f.header f.payload (noteCompressed f.header c)).2.log) :
    (handleTextBinary env f.header f.payload (noteCompressed f.header c)).1 = 0 ∧
      SameFrame c (handleTextBinary env f.header f.payload (noteCompressed f.header c)).2 ∧
      ∃ done' part', S.Caught
        (handleTextBinary env f.header f.payload (noteCompressed f.header c)).2 fs done' part' := by
  obtain ⟨hholds, rfl, hfrag⟩ := h.start hmode
  obtain ⟨hop, hlegal⟩ := h.legal_data hc
  rw [if_pos hmode] at hop
  obtain ⟨hop, hrsv⟩ := hop
  have howed := h.owed hc
  have hdata : f.opcode = Opcode.text ∨ f.opcode = Opcode.binary := by tauto
  have hcomp := (h.none hmode).2
  -- the message is marked, and the frame is noted
  obtain ⟨c₀, hc₀, hframe₀, hcalm₀, hholds₀, hmode₀, hcomp₀, hfrag₀, hsplit₀⟩ :
      ∃ c₀, (noteCompressed f.header c).emit (.dataFrame f.header.opcode f.header.payloadLen
          f.header.fin (noteCompressed f.header c).msg.compressed) = c₀ ∧ SameFrame c c₀ ∧ Calm c c₀ ∧
        S.Holds c₀ done [] ∧ c₀.msg.mode = .none ∧ c₀.msg.compressed = S.compressed ∧
        c₀.frag = [] ∧
        (f.fin = false → S.compressed = true → S.Clean c₀.log → S.Split done) := by
    refine ⟨_, rfl, ?_⟩
    have hnote : noteCompressed f.header c =
        { c with msg := { c.msg with compressed := S.compressed } } := by
      cases hs : S.compressed with
      | true => exact if_pos ⟨hrsv.trans hs, hdata⟩
      | false =>
          refine (if_neg fun hn => by cases (hrsv.trans hs).symm.trans hn.1).trans ?_
          rw [← hcomp]
    rw [hnote]
    have h₁ : Calm c { c with msg := { c.msg with compressed := S.compressed } } :=
      .same h.alive rfl rfl rfl rfl
    have hholds₁ : S.Holds { c with msg := { c.msg with compressed := S.compressed } } done [] :=
      same hholds
    refine ⟨.of_fields rfl, h₁.trans (emit_calm h₁.destroyed _), S.noted hholds₁ _ rfl, hmode, rfl,
      hfrag, fun hfin hs hcln => ?_⟩
    rw [hs, WireFrame.header_fin, hfin] at hcln
    exact S.clean_first hs hholds hcln
  have hmode₁ : ¬ (noteCompressed f.header c).msg.mode ≠ .none := by
    have : c₀.msg.mode = (noteCompressed f.header c).msg.mode := by rw [← hc₀]; rfl
    rw [← this, hmode₀]
    simp
  unfold handleTextBinary at hclean ⊢
  rw [if_neg hmode₁] at hclean ⊢
  dsimp only at hclean ⊢
  rw [hc₀] at hclean ⊢
  cases hf : f.fin with
  | true =>
      have hs : S.compressed = false := by
        cases hs : S.compressed with
        | true => cases (hone hs).symm.trans hf
        | false => rfl
      have hbin : f.opcode = Opcode.binary := by simpa [hs] using hop
      rw [hf] at howed hlegal
      obtain ⟨hret, hframe, hcaught⟩ := handleSingle_caught (f := f) hg hm hs hcalm₀.destroyed
        (hcalm₀.keeps _ h.just) hmode₀ (hcomp₀.trans hs) hfrag₀ hholds₀ hbin howed hlegal
      rw [if_pos (by simpa using hf)]
      exact ⟨hret, hframe₀.trans hframe, hcaught⟩
  | false =>
      rw [hf] at howed hlegal
      rw [if_neg (by simp [hf])] at hclean ⊢
      rw [if_neg (by simp [fragAppend_ret hlen])] at hclean ⊢
      have hfirst : Calm c₀ { c₀ with msg := { c₀.msg with
          opcode := f.opcode, total := 0, finSent := false, mode := .frag } } :=
        .same hcalm₀.destroyed rfl rfl rfl rfl
      have happend := hfirst.trans (fragAppend_calm hg hm f.payload hfirst.destroyed)
      have hgrows := happend.log.trans (fragFlush_mild hg hm false happend.destroyed).log
      obtain ⟨hframe, hcaught⟩ := first_caught (f := f) hg hm hcap hcalm₀.destroyed
        (hcalm₀.keeps _ h.just) hcomp₀ hfrag₀ hholds₀ (fun hs => by simpa [hs] using hop)
        (fun hs => hsplit₀ hf hs (S.clean_mono hgrows hclean)) howed hlegal hlen rfl hclean
      obtain ⟨done', part', hcaught'⟩ := hcaught
      exact ⟨by simp [hcaught'.alive], hframe₀.trans hframe, done', part', hcaught'⟩

-- ---- any frame ----

omit hg hm hcap in
-- PING and PONG are no part of a message.
theorem Caught.skip {c : Conn σ δ} {f : WireFrame} {fs done part}
    (h : S.Caught c (f :: fs) done part) (hc : f.control = true) : S.Caught c fs done part := by
  obtain ⟨rest, hall, hmap⟩ := h.due
  obtain ⟨-, hlegal⟩ := h.legal
  simp only [hc, if_true] at hlegal
  simp only [messages, hc, if_true] at hmap
  exact ⟨h.alive, h.just, h.frag_le, hlegal.2.2.2, h.held, ⟨rest, hall, hmap⟩, h.none, h.active⟩

omit hg hm hcap in
theorem plainFrame_dispatched {hdr : FrameHeader} (size : Nat) {payload : Bytes} {c : Conn σ δ}
    {r : Int × Conn σ δ}
    (hctl : Opcode.isControl hdr.opcode = true → hdr.payloadLen ≤ 125 ∧ hdr.fin = true)
    (hclose : hdr.opcode ≠ Opcode.close) (hd : dispatch env hdr payload c = some r) :
    plainFrame env hdr size payload c =
      if r.1 < 0 then (.ret (-1), r.2) else if r.1 > 0 then (.ret r.1, r.2)
      else (.goOn, consumeFrame hdr size r.2) := by
  unfold plainFrame
  rw [if_neg, if_neg, if_neg hclose, hd]
  · rintro ⟨hc, hf⟩
    simp [(hctl hc).2] at hf
  · rintro ⟨hc, hl⟩
    have := (hctl hc).1
    omega

omit hg hm hcap in
-- A frame that has been dealt with: the loop goes on behind it.
theorem plainFrame_goOn {c c₁ : Conn σ δ} {f : WireFrame} {fs x} {r : Int × Conn σ δ}
    (hctl : Opcode.isControl f.opcode = true → f.payload.length ≤ 125 ∧ f.fin = true)
    (hclose : f.opcode ≠ Opcode.close) (hd : dispatch env f.header f.payload c₁ = some r)
    (hx : c.recv = f.head ++ f.payload ++ x)
    (hr : S.Clean r.2.log → r.1 = 0 ∧ SameFrame c r.2 ∧ ∃ done part, S.Caught r.2 fs done part)
    (hclean : S.Clean (plainFrame env f.header f.head.length f.payload c₁).2.log) :
    ∃ c', plainFrame env f.header f.head.length f.payload c₁ = (.goOn, c') ∧
      c'.recv = x ∧ c'.streamRemaining = c.streamRemaining ∧ ∃ done part, S.Caught c' fs done part := by
  have heq := plainFrame_dispatched f.head.length hctl hclose hd
  have hlog : (plainFrame env f.header f.head.length f.payload c₁).2.log = r.2.log := by
    rw [heq]
    split_ifs <;> rfl
  obtain ⟨h0, hframe, done, part, hcaught⟩ := hr (hlog ▸ hclean)
  refine ⟨{ r.2 with recv := x }, ?_, rfl, hframe.remaining, done, part, hcaught.recv x⟩
  rw [heq, if_neg (by omega), if_neg (by omega), consumeFrame_wire (hframe.recv.trans hx)]

omit hm hcap in
theorem control_caught {c : Conn σ δ} {f : WireFrame} {fs x done part}
    (h : S.Caught c (f :: fs) done part) (hc : f.control = true) (hopen : c.state ≠ .closed)
    (hx : c.recv = f.head ++ f.payload ++ x)
    (hclean : S.Clean (plainFrame env f.header f.head.length f.payload c).2.log) :
    (∃ c', plainFrame env f.header f.head.length f.payload c = (.goOn, c') ∧
      c'.recv = x ∧ c'.streamRemaining = c.streamRemaining ∧
      ∃ done' part', S.Caught c' fs done' part') ∨
    ∃ c', plainFrame env f.header f.head.length f.payload c = (.ret Err.wsWrite, c') ∧ S.Sound c' := by
  obtain ⟨-, hlegal⟩ := h.legal
  simp only [hc, if_true] at hlegal
  obtain ⟨hfin, -, hlen, -⟩ := hlegal
  have hskip := h.skip hc
  simp only [WireFrame.control, Bool.or_eq_true, beq_iff_eq] at hc
  rcases hc with hop | hop
  · have hd : dispatch env f.header f.payload c = some (handlePing env f.payload c) := by
      simp [dispatch, hop, Opcode.ping, Opcode.text, Opcode.binary, Opcode.cont]
    have ha := handlePing_aside hg f.payload h.alive
    have hcalm := handlePing_calm hg f.payload h.alive
    by_cases h0 : (handlePing env f.payload c).1 = 0
    · exact .inl (plainFrame_goOn (fun _ => ⟨hlen, hfin⟩) (by simp [hop, Opcode.ping, Opcode.close])
        hd hx (fun _ => ⟨h0, ha.rx.sameBuf.toSameFrame, done, part, hskip.aside ha hcalm⟩) hclean)
    · have hret : (handlePing env f.payload c).1 = Err.wsWrite := by
        unfold handlePing at h0 ⊢
        dsimp only at h0 ⊢
        split
        · rfl
        · rename_i hr
          simp [hr] at h0
      have hrc : (sendFrame env (notify env) Opcode.pong (.bytes f.payload) c).1 ≠ 0 := by
        intro h
        simp [handlePing, h] at h0
      have hfault : Faulty S.since (handlePing env f.payload c).2.log :=
        pong_fault (fun n _ hd _ => notify_aside hg n hd) h.alive h.just hopen hlen hrc
      refine .inr ⟨(handlePing env f.payload c).2, ?_, (hskip.aside ha hcalm).right, hfault⟩
      rw [plainFrame_dispatched f.head.length (fun _ => ⟨hlen, hfin⟩)
        (by simp [hop, Opcode.ping, Opcode.close]) hd, hret, if_neg (by decide), if_pos (by decide)]
  · have hd : dispatch env f.header f.payload c = some (handlePong env f.payload c) := by
      simp [dispatch, hop, Opcode.ping, Opcode.pong, Opcode.text, Opcode.binary, Opcode.cont]
    have ha := handlePong_aside hg f.payload h.alive
    have hcalm := handlePong_calm hg f.payload h.alive
    have h0 : (handlePong env f.payload c).1 = 0 := by
      have hdes : (callback env env.onPong (.onPong f.payload) c).destroyed = false := ha.destroyed
      simp [handlePong, hdes]
    exact .inl (plainFrame_goOn (fun _ => ⟨hlen, hfin⟩) (by simp [hop, Opcode.pong, Opcode.close])
      hd hx (fun _ => ⟨h0, ha.rx.sameBuf.toSameFrame, done, part, hskip.aside ha hcalm⟩) hclean)

theorem data_caught {c : Conn σ δ} {f : WireFrame} {fs x done part}
    (h : S.Caught c (f :: fs) done part) (hc : f.control = false)
    (hx : c.recv = f.head ++ f.payload ++ x) (hlen : f.payload.length ≤ env.recvCap)
    (hone : c.msg.mode = .none → S.compressed = true → f.fin = false)
    (hclean : S.Clean (plainFrame env f.header f.head.length f.payload
      (noteCompressed f.header c)).2.log) :
    ∃ c', plainFrame env f.header f.head.length f.payload (noteCompressed f.header c) = (.goOn, c') ∧
      c'.recv = x ∧ c'.streamRemaining = c.streamRemaining ∧
      ∃ done' part', S.Caught c' fs done' part' := by
  obtain ⟨hop, -⟩ := h.legal_data hc
  by_cases hmode : c.msg.mode = .none
  · rw [if_pos hmode] at hop
    have hdata : f.opcode = Opcode.text ∨ f.opcode = Opcode.binary := by tauto
    have hd : dispatch env f.header f.payload (noteCompressed f.header c) =
        some (handleTextBinary env f.header f.payload (noteCompressed f.header c)) := if_pos hdata
    refine plainFrame_goOn (fun hctl => ?_) (fun hcl => ?_) hd hx (fun hcln =>
      handleTextBinary_caught hg hm hcap h hc hmode (hone hmode) hlen hcln) hclean
    · rcases hdata with hop | hop <;> exact absurd (hop ▸ hctl) (by decide)
    · rcases hdata with hop | hop <;> exact absurd (hop ▸ hcl) (by decide)
  · rw [if_neg hmode] at hop
    have hnote : noteCompressed f.header c = c :=
      if_neg fun hn => by simp [hop.2] at hn
    rw [hnote] at hclean ⊢
    have hd : dispatch env f.header f.payload c = some (handleCont env f.header f.payload c) := by
      simp [dispatch, hop.1, Opcode.text, Opcode.binary, Opcode.cont]
    refine plainFrame_goOn (fun hctl => ?_) (by simp [hop.1, Opcode.cont, Opcode.close]) hd hx
      (fun hcln => handleCont_caught hg hm hcap h hc hmode hlen hcln) hclean
    exact absurd (hop.1 ▸ hctl) (by decide)

omit hcap in
-- A compressed message in one frame.
theorem oneshot_caught {c : Conn σ δ} {f : WireFrame} {fs x done part}
    (h : S.Caught c (f :: fs) done part) (hc : f.control = false) (hmode : c.msg.mode = .none)
    (hs : S.compressed = true) (hf : f.fin = true) (hx : c.recv = f.head ++ f.payload ++ x)
    (hlen : f.payload.length ≤ env.recvCap)
    (hclean : S.Clean (oneshotFrame env f.header f.head.length f.payload c).2.log) :
    ∃ c', oneshotFrame env f.header f.head.length f.payload c = (.goOn, c') ∧
      c'.recv = x ∧ c'.streamRemaining = c.streamRemaining ∧
      ∃ done' part', S.Caught c' fs done' part' := by
  obtain ⟨hholds, rfl, hfrag⟩ := h.start hmode
  obtain ⟨m, rest, hall, -, hfin, -⟩ := h.owed hc
  obtain ⟨hm₁, hrest⟩ := hfin hf
  rw [List.nil_append] at hm₁
  obtain ⟨-, hlegal⟩ := h.legal_data hc
  rw [hf] at hlegal
  have h₀ := emit_calm h.alive (.dataFrame f.header.opcode f.header.payloadLen f.header.fin true)
  have hj₀ := h₀.keeps _ h.just
  have hholds₀ := S.noted hholds (.dataFrame f.header.opcode f.header.payloadLen f.header.fin true) rfl
  have hsame₀ : SameBuf c (c.emit (.dataFrame f.header.opcode f.header.payloadLen f.header.fin
    true)) := .of_fields rfl
  unfold oneshotFrame at hclean ⊢
  rw [if_neg (by simp [hmode])] at hclean ⊢
  dsimp only at hclean ⊢
  generalize c.emit (.dataFrame f.header.opcode f.header.payloadLen f.header.fin true) = c₀ at *
  have hcalm := decompressOneshot_calm hg hm f.payload (f.header.opcode == Opcode.binary) h₀.destroyed
  have hsame := hsame₀.trans
    (decompressOneshot_sameBuf hg hm f.payload (f.header.opcode == Opcode.binary) h₀.destroyed)
  have hone := S.oneshot hs h₀.destroyed hholds₀ hall (f.header.opcode == Opcode.binary) (hm₁ ▸ hlen)
  rw [hm₁] at hone
  generalize decompressOneshot env f.payload (f.header.opcode == Opcode.binary) c₀ = r at *
  have hlog : S.Clean r.2.log := by
    revert hclean
    split_ifs <;> exact id
  obtain ⟨h0, hholds₁⟩ := hone hlog
  rw [if_neg (by simp [h0]), if_neg (by simp [hcalm.destroyed]), consumeFrame_wire (hsame.recv.trans hx)]
  have hcl : Cleared c r.2 :=
    ⟨hsame.toSameFrame, hsame.msg ▸ hmode, hsame.msg ▸ (h.none hmode).2, hsame.frag.trans hfrag⟩
  exact ⟨_, rfl, rfl, hsame.remaining, done ++ [m], [],
    (Caught.over hcalm.destroyed (hcalm.keeps _ hj₀) hcl hholds₁ hall hrest hlegal rfl).recv x⟩

theorem whole_caught {c : Conn σ δ} {f : WireFrame} {fs x done part}
    (h : S.Caught c (f :: fs) done part) (hopen : c.state ≠ .closed)
    (hx : c.recv = f.bytes ++ x) (hroom : c.recv.length ≤ env.recvCap)
    (hclean : S.Clean (wholeFrame env f.header f.head.length c).2.log) :
    (∃ c', wholeFrame env f.header f.head.length c = (.goOn, c') ∧
      c'.recv = x ∧ c'.streamRemaining = c.streamRemaining ∧
      ∃ done' part', S.Caught c' fs done' part') ∨
    ∃ c', wholeFrame env f.header f.head.length c = (.ret Err.wsWrite, c') ∧ S.Sound c' := by
  obtain ⟨hkey, hlegal⟩ := h.legal
  have hlen : f.payload.length ≤ env.recvCap := by
    rw [hx, List.length_append, f.bytes_length] at hroom
    omega
  have h₁ := h.recv (f.head ++ f.payload ++ x)
  unfold wholeFrame at hclean ⊢
  rw [framePayload_wire hx, unmaskFrame_wire hx] at hclean ⊢
  rw [if_neg (by simp [hkey])] at hclean ⊢
  dsimp only at hclean ⊢
  rw [if_neg (by simp)] at hclean ⊢
  by_cases hc : f.control = true
  · simp only [hc, if_true] at hlegal
    have hrsv : f.rsv1 = false := hlegal.2.1
    simp only [WireFrame.header_rsv1, hrsv, Bool.false_eq_true, false_and, if_false, noteCompressed]
      at hclean ⊢
    exact control_caught hg h₁ hc hopen rfl hclean
  rw [Bool.not_eq_true] at hc
  obtain ⟨hop, -⟩ := h.legal_data hc
  by_cases hrsv : f.rsv1 = true
  · have hmode : c.msg.mode = .none := by
      by_contra hmode
      rw [if_neg hmode] at hop
      simp [hop.2] at hrsv
    rw [if_pos hmode] at hop
    have hs : S.compressed = true := hop.2.symm.trans hrsv
    have hdata : f.opcode = Opcode.text ∨ f.opcode = Opcode.binary := by tauto
    have hready : c.deflate.isSome = true := by
      obtain ⟨hholds, -, -⟩ := h.start hmode
      exact S.ready hs hholds
    have hctl : Opcode.isControl f.opcode = false := by
      rcases hdata with hop | hop <;> rw [hop] <;> decide
    have hcont : f.opcode ≠ Opcode.cont := by
      rcases hdata with hop | hop <;> rw [hop] <;> decide
    rw [if_neg (by simp [hctl]), if_neg (by simp [Option.isSome_iff_ne_none.mp hready]),
      if_neg (by simp [hcont])] at hclean ⊢
    by_cases hf : f.fin = true
    · rw [if_pos ⟨hrsv, hf⟩] at hclean ⊢
      exact .inl (oneshot_caught hg hm h₁ hc hmode hs hf rfl hlen hclean)
    · rw [if_neg (by simp [hf])] at hclean ⊢
      exact .inl (data_caught hg hm hcap h₁ hc rfl hlen (fun _ _ => by simpa using hf) hclean)
  · rw [if_neg (by simp [hrsv]), if_neg (by simp [hrsv]), if_neg (by simp [hrsv]),
      if_neg (by simp [hrsv])] at hclean ⊢
    refine .inl (data_caught hg hm hcap h₁ hc rfl hlen (fun hmode hs => ?_) hclean)
    rw [if_pos hmode] at hop
    exact absurd (hop.2.trans hs) hrsv

-- ---- frames on the streaming route ----

-- A message on the streaming route, with nothing in frag_buf.
structure Joined (S : Sink env) (c c' : Conn σ δ) (done : List (Bytes × Bytes)) (part : Bytes) :
    Prop where
  alive : c'.destroyed = false
  just : Justified S.since c'
  recv : c'.recv = c.recv
  mode : c'.msg.mode = .stream
  frag : c'.frag = []
  active : S.Active c' done
  holds : S.Holds c' done part

omit hcap in
theorem join_caught {c : Conn σ δ} {f : WireFrame} {fs done part}
    (h : S.Caught c (f :: fs) done part) (hc : f.control = false)
    (hclean : S.Clean (joinStream env f.header
      (c.emit (.streamFrame c.msg.mode c.frag.length))).2.log) :
    ∃ c', joinStream env f.header (c.emit (.streamFrame c.msg.mode c.frag.length)) = (false, c') ∧
      S.Joined c c' done part := by
  obtain ⟨fed, hholds, hpart⟩ := h.held
  obtain ⟨m, rest, hall, hp, -, -⟩ := h.owed hc
  have h₀ := emit_aside h.alive (.streamFrame c.msg.mode c.frag.length) rfl
  have hj₀ := (emit_calm h.alive (.streamFrame c.msg.mode c.frag.length)).keeps _ h.just
  have hholds₀ := S.keep h₀.silent.unheard h₀.rx.inflate hholds
  generalize hc₀ : c.emit (.streamFrame c.msg.mode c.frag.length) = c₀ at *
  have hsame : SameBuf c c₀ := by rw [← hc₀]; exact .of_fields rfl
  unfold joinStream at hclean ⊢
  cases hmode : c₀.msg.mode with
  | frag =>
      rw [hmode] at hclean
      have hcalm := fragFlushTail_calm hg hm h₀.destroyed
      have ha₀ := (h.active (by rw [← hsame.msg, hmode]; simp)).kept (.of_same hsame)
      dsimp only at hclean ⊢
      rw [if_neg (by simp [hcalm.destroyed])] at hclean ⊢
      obtain ⟨hkept, hholds₁, hfrag⟩ := fragFlushTail_held hg hm h₀.destroyed ha₀
        ⟨fed, hholds₀, by rw [hsame.frag, hpart]⟩ hall ((List.prefix_append _ _).trans hp)
        (hsame.frag ▸ h.frag_le) hclean
      have ha₁ := ha₀.kept hkept
      have hj₁ := hcalm.keeps _ hj₀
      exact ⟨_, rfl, hcalm.destroyed, ⟨hj₁.le, hj₁.state, hj₁.stream, hj₁.closed⟩,
        hkept.recv.trans hsame.recv, rfl, hfrag,
        ⟨by simp, ha₁.compressed, ha₁.opcode, ha₁.finSent, ha₁.split⟩, same hholds₁⟩
  | stream =>
      rw [hmode] at hclean
      rw [hsame.msg] at hmode
      rw [hmode] at hc₀
      have hlen := S.clean_stream hholds (hc₀ ▸ hclean)
      have hfrag : c.frag = [] := List.eq_nil_of_length_eq_zero hlen
      have ha := (h.active (by simp [hmode])).kept (.of_same hsame)
      rw [hfrag, List.append_nil] at hpart
      exact ⟨_, rfl, h₀.destroyed, hj₀, hsame.recv, hsame.msg ▸ hmode, hsame.frag.trans hfrag, ha,
        hpart ▸ hholds₀⟩
  | none =>
      rw [hmode] at hclean
      rw [hsame.msg] at hmode
      rw [hmode] at hc₀
      obtain ⟨-, hnil, hfrag⟩ := h.start hmode
      obtain ⟨hop, -⟩ := h.legal_data hc
      rw [if_pos hmode] at hop
      rw [hfrag, List.append_nil] at hpart
      refine ⟨_, rfl, h₀.destroyed, ⟨hj₀.le, hj₀.state, hj₀.stream, hj₀.closed⟩, hsame.recv, rfl,
        hsame.frag.trans hfrag, ⟨by simp, ?_, ?_, rfl, ?_⟩, same (hpart ▸ hholds₀)⟩
      · simp [hsame.msg, (h.none hmode).2, hop.2]
      · intro hs
        simpa [hs] using hop.1
      · exact fun hs => S.clean_large hs (h.start hmode).1 (hc₀ ▸ hclean)

omit hcap in
theorem begin_caught {c : Conn σ δ} {f : WireFrame} {fs x done part}
    (h : S.Caught c (f :: fs) done part) (hx : c.recv = f.head ++ x) (hlen : 125 < f.payload.length)
    (hclean : S.Clean (beginStream env f.header f.head.length c).2.log) :
    ∃ c', beginStream env f.header f.head.length c = (none, streamConsume env c') ∧
      c'.destroyed = false ∧ S.Inside c' f.payload fs done part ∧ c'.recv = x ∧
      c'.streamRemaining = f.payload.length ∧ ∀ r, c'.veil r =
        match f.key with
        | none => r
        | some key => applyMask key r := by
  obtain ⟨hkey, hlegal⟩ := h.legal
  have hc : f.control = false := by
    by_contra hc
    rw [Bool.not_eq_false] at hc
    simp only [hc, if_true] at hlegal
    omega
  obtain ⟨hop, hnext⟩ := h.legal_data hc
  have hready : f.rsv1 = true → c.deflate.isSome = true := by
    intro hrsv
    obtain ⟨fed, hholds, -⟩ := h.held
    split at hop
    · exact S.ready (hop.2.symm.trans hrsv) hholds
    · simp [hop.2] at hrsv
  have hdeflate : ¬ (f.header.rsv1 = true ∧ c.deflate.isNone = true) := by
    rintro ⟨hrsv, hnone⟩
    have := hready hrsv
    simp [Option.isNone_iff_eq_none.mp hnone] at this
  have hcont : ¬ (f.header.rsv1 = true ∧ f.header.opcode = Opcode.cont) := by
    rintro ⟨hrsv, hcont⟩
    split at hop
    · rcases hop.1 with hop | ⟨-, hop⟩ <;> cases hcont.symm.trans hop
    · exact absurd hrsv (by simp [hop.2])
  have hinside : ¬ (c.msg.mode ≠ .none ∧ f.header.opcode ≠ Opcode.cont) := by
    rintro ⟨hmode, hcont⟩
    rw [if_neg hmode] at hop
    exact hcont hop.1
  have hfirst : ¬ (c.msg.mode = .none ∧ f.header.opcode ≠ Opcode.text ∧
      f.header.opcode ≠ Opcode.binary) := by
    rintro ⟨hmode, htext, hbin⟩
    rw [if_pos hmode] at hop
    rcases hop.1 with hop | ⟨-, hop⟩
    · exact hbin hop
    · exact htext hop
  unfold beginStream at hclean ⊢
  rw [if_neg (by simp), if_neg hdeflate, if_neg hcont, if_neg (by simp [hkey]), if_neg hinside,
    if_neg hfirst] at hclean ⊢
  dsimp only at hclean ⊢
  have hcaught := h.noted (.dataFrame f.header.opcode f.header.payloadLen f.header.fin
    (c.msg.compressed || f.header.rsv1)) rfl
  have hrecv₀ : (c.emit (.dataFrame f.header.opcode f.header.payloadLen f.header.fin
    (c.msg.compressed || f.header.rsv1))).recv = c.recv := rfl
  generalize c.emit (.dataFrame f.header.opcode f.header.payloadLen f.header.fin
    (c.msg.compressed || f.header.rsv1)) = c₀ at *
  have hroute := emit_calm hcaught.alive (.streamFrame c₀.msg.mode c₀.frag.length)
  have hjoin := joinStream_calm hg hm f.header hroute.destroyed
  have hgrows : (joinStream env f.header (c₀.emit (.streamFrame c₀.msg.mode c₀.frag.length))).2.log <+:
      (if (joinStream env f.header (c₀.emit (.streamFrame c₀.msg.mode c₀.frag.length))).1 then
        (joinStream env f.header (c₀.emit (.streamFrame c₀.msg.mode c₀.frag.length))).2
      else streamConsume env (armStream f.header f.head.length
        (joinStream env f.header (c₀.emit (.streamFrame c₀.msg.mode c₀.frag.length))).2)).log := by
    split
    · exact List.prefix_rfl
    · exact ((Calm.refl hjoin.destroyed).next (streamConsume_calm hg hm)).log
  obtain ⟨c₁, heq, hj⟩ := join_caught hg hm hcaught hc (S.clean_mono hgrows hclean)
  rw [heq]
  refine ⟨armStream f.header f.head.length c₁, rfl, hj.alive, ?_, ?_, rfl, fun r => ?_⟩
  · exact ⟨hj.alive, ⟨hj.just.le, hj.just.state, hj.just.stream, hj.just.closed⟩, hj.mode, hj.frag, hnext,
      same hj.holds, h.owed hc,
      ⟨hj.active.mode, hj.active.compressed, hj.active.opcode, hj.active.finSent, hj.active.split⟩⟩
  · simp only [armStream, hj.recv, hrecv₀, hx, List.drop_left]
  · unfold veil armStream
    cases hk : f.key with
    | none => simp [hk]
    | some key => simp [hk, WireFrame.header, applyMask]

omit hcap in
-- One chunk of a streamed frame: it is in the sink, or it has ended the message.
theorem turn_caught {c : Conn σ δ} {a b x fs done part m rest} (hd : c.destroyed = false)
    (h : S.Inside c (a ++ b) fs done part) (hall : S.all = done ++ m :: rest)
    (hp : part ++ a <+: m.1) (hfin : b = [] → c.streamFin = true → m.1 = part ++ a)
    (ha : a ≠ []) (hrecv : c.recv = c.veil a ++ x) (hend : b = [] ∨ x = [])
    (hrem : c.streamRemaining = a.length + b.length) (hroom : c.recv.length ≤ env.recvCap)
    (hclean : S.Clean (streamChunks env c.recv.length c).2.log) :
    ∃ c', streamChunks env c.recv.length c = (true, c'.advance a.length) ∧ Calm c c' ∧
      SameFrame { c with recv := a ++ x } c' ∧ c'.msg.mode = .stream ∧ c'.frag = [] ∧
      (S.Active c' done ∧ S.Holds c' done (part ++ a) ∨
        (b = [] ∧ c.streamFin = true) ∧ c'.msg.compressed = false ∧ c'.msg.finSent = true ∧
          S.Holds c' (done ++ [m]) []) := by
  obtain ⟨fuel, heq⟩ := streamChunks_turn hd ha hrecv hend hrem hroom hm
  have hstop : ∀ c' : Conn σ δ, SameFrame { c with recv := a ++ x } c' →
      streamChunks env fuel (c'.advance a.length) = (true, c'.advance a.length) := by
    intro c' hframe
    refine streamChunks_stop fuel _ ?_
    rcases hend with hb | hx
    · exact .inr (by simp [advance, hframe.remaining, hrem, hb])
    · exact .inl (by simp [advance, hframe.recv, hx])
  have hrest : ∀ c' : Conn σ δ, c'.destroyed = false →
      c'.log <+: (streamChunks env fuel (c'.advance a.length)).2.log := fun c' hd' =>
    (streamChunks_calm hg hm fuel (show (c'.advance a.length).destroyed = false from hd')).log
  have hlen : a.length ≤ env.recvCap := by
    rw [hrecv, List.length_append, c.veil_length] at hroom
    omega
  have h₁ : Calm c { c with recv := a ++ x } := .same hd rfl rfl rfl rfl
  rw [heq] at hclean ⊢
  cases hs : S.compressed with
  | true =>
      rw [if_pos (h.active.compressed.trans hs)] at hclean ⊢
      dsimp only at hclean ⊢
      have hcalm := decompressStreamChunk_calm hg hm a c.isBin h₁.destroyed
      have hsame := decompressStreamChunk_sameBuf hg hm a c.isBin h₁.destroyed
      have hchunk := S.chunk (c := { c with recv := a ++ x }) hs hd (same h.holds) hall
        (h.active.split hs) a c.isBin hp hlen
      generalize decompressStreamChunk env a c.isBin { c with recv := a ++ x } = r at *
      have hlog : S.Clean r.2.log := by
        refine S.clean_mono ?_ hclean
        split
        · exact List.prefix_rfl
        · exact hrest r.2 hcalm.destroyed
      obtain ⟨h0, hholds⟩ := hchunk hlog
      rw [if_neg (by simp [h0]), hstop _ hsame.toSameFrame]
      exact ⟨r.2, rfl, h₁.trans hcalm, hsame.toSameFrame, hsame.msg ▸ h.mode, hsame.frag.trans h.frag,
        .inl ⟨h.active.of_msg hsame.msg, hholds⟩⟩
  | false =>
      rw [if_neg (by simp [h.active.compressed, hs])] at hclean ⊢
      dsimp only at hclean ⊢
      have hcalm := handed_calm hg a (decide (b = []) && c.streamFin) h₁.destroyed
      rw [if_neg (by simp [hcalm.destroyed])] at hclean ⊢
      have hholds₁ : S.Holds { c with recv := a ++ x } done part := same h.holds
      by_cases hlast : b = [] ∧ c.streamFin = true
      · have hl : (decide (b = []) && c.streamFin) = true := by simp [hlast]
        rw [hl] at hcalm hclean ⊢
        have hsame := message_sameBuf hg hm .streamConsume a c.isBin true c.msg.total h₁.destroyed
        have hholds := S.finish hs h₁.destroyed hholds₁ hall .streamConsume a c.isBin c.msg.total
          (hfin hlast.1 hlast.2)
        have he : handed env a true { c with recv := a ++ x } =
            { message env .streamConsume a c.isBin true c.msg.total { c with recv := a ++ x } with
              msg := { (message env .streamConsume a c.isBin true c.msg.total
                { c with recv := a ++ x }).msg with finSent := true } } := rfl
        rw [he] at hcalm hclean ⊢
        generalize message env .streamConsume a c.isBin true c.msg.total { c with recv := a ++ x } = c₂
          at *
        have hframe : SameFrame { c with recv := a ++ x }
            { c₂ with msg := { c₂.msg with finSent := true } } :=
          hsame.toSameFrame.trans (.of_fields rfl)
        rw [hstop _ hframe]
        refine ⟨_, rfl, h₁.trans hcalm, hframe, hsame.msg ▸ h.mode, hsame.frag.trans h.frag, ?_⟩
        refine .inr ⟨hlast, ?_, rfl, same hholds⟩
        exact (congrArg MsgState.compressed hsame.msg).trans (h.active.compressed.trans hs)
      · have hl : (decide (b = []) && c.streamFin) = false := by
          simpa using fun hb => (Bool.not_eq_true _).mp fun hf => hlast ⟨hb, hf⟩
        rw [hl] at hcalm hclean ⊢
        have hsame := message_sameBuf hg hm .streamConsume a c.isBin false 0 h₁.destroyed
        have hholds := S.feed hs h₁.destroyed hholds₁ .streamConsume a c.isBin 0
        have he : handed env a false { c with recv := a ++ x } =
            message env .streamConsume a c.isBin false 0 { c with recv := a ++ x } := rfl
        rw [he] at hcalm hclean ⊢
        rw [hstop _ hsame.toSameFrame]
        exact ⟨_, rfl, h₁.trans hcalm, hsame.toSameFrame,
          (congrArg MsgState.mode hsame.msg).trans h.mode, hsame.frag.trans h.frag,
          .inl ⟨h.active.of_msg hsame.msg, hholds⟩⟩

omit hcap in
theorem consume_caught {c : Conn σ δ} {a b x fs done part} (hd : c.destroyed = false)
    (h : S.Inside c (a ++ b) fs done part) (ha : a ≠ []) (hrecv : c.recv = c.veil a ++ x)
    (hend : b = [] ∨ x = []) (hrem : c.streamRemaining = a.length + b.length)
    (hroom : c.recv.length ≤ env.recvCap) (hclean : S.Clean (streamConsume env c).log) :
    (streamConsume env c).recv = x ∧
      (b = [] → (∃ done' part', S.Caught (streamConsume env c) fs done' part') ∧
        (streamConsume env c).streamRemaining = 0) ∧
      (b ≠ [] → S.Inside (streamConsume env c) b fs done (part ++ a) ∧
        Advanced c (streamConsume env c) a.length) := by
  obtain ⟨m, rest, hall, hp, hfin, hmore⟩ := h.owed
  rw [← List.append_assoc] at hp hfin hmore
  have hchunks := streamChunks_calm hg hm c.recv.length hd
  have hgrows : (streamChunks env c.recv.length c).2.log <+: (streamConsume env c).log := by
    unfold streamConsume
    dsimp only
    split_ifs
    · exact List.prefix_rfl
    · exact (msgEnd_calm hg hm c.isBin hchunks.destroyed).log
    · exact List.prefix_rfl
  obtain ⟨c', heq, hcalm, hframe, hmode, hfrag, hturn⟩ := turn_caught hg hm hd h hall
    ((List.prefix_append _ _).trans hp) (fun hb hf => by simpa [hb] using (hfin hf).1) ha hrecv hend
    hrem hroom (S.clean_mono hgrows hclean)
  have hadv : SameFrame
      { c with recv := x, streamRemaining := b.length, streamMaskOff := c.streamMaskOff + a.length }
      (c'.advance a.length) := by
    refine ⟨?_, ?_, hframe.fin, hframe.mask, hframe.maskKey, ?_⟩
    · simp [advance, hframe.recv]
    · simp [advance, hframe.remaining, hrem]
    · simp [advance, hframe.maskOff]
  have hj : Justified S.since (c'.advance a.length) :=
    have hj := hcalm.keeps _ h.just
    ⟨hj.le, hj.state, hj.stream, hj.closed⟩
  have hd' : (c'.advance a.length).destroyed = false := hcalm.destroyed
  unfold streamConsume at hclean ⊢
  rw [heq] at hclean ⊢
  dsimp only at hclean ⊢
  rw [if_neg (by simp)] at hclean ⊢
  by_cases hb : b = []
  · subst hb
    rw [List.append_nil] at hfin hmore
    by_cases hf : c.streamFin = true
    · have hcond : (c'.advance a.length).streamRemaining = 0 ∧ (c'.advance a.length).streamFin :=
        ⟨hadv.remaining, hadv.fin.trans hf⟩
      rw [if_pos hcond] at hclean ⊢
      obtain ⟨hm₁, hrest⟩ := hfin hf
      have hlegal : Legal S.opens env.isClient false fs := by simpa [hf] using h.legal
      have hmsgEnd := msgEnd_calm hg hm c.isBin hd'
      -- fin has gone out with the chunk, or goes out now
      obtain ⟨hcl, hholds⟩ : Cleared (c'.advance a.length) (msgEnd env c.isBin (c'.advance a.length)) ∧
          S.Holds (msgEnd env c.isBin (c'.advance a.length)) (done ++ [m]) [] := by
        rcases hturn with ⟨hactive, hholds⟩ | ⟨-, hcomp, hsent, hholds⟩
        · exact msgEnd_finish hg hm hd' (hactive.of_msg rfl) (same (hm₁ ▸ hholds)) hall c.isBin hclean
        · exact msgEnd_sent (c := c'.advance a.length) hcomp hsent (same hholds) c.isBin
      refine ⟨hcl.recv.trans hadv.recv, fun _ => ⟨⟨done ++ [m], [], ?_⟩, ?_⟩, fun h => absurd rfl h⟩
      · exact .over hmsgEnd.destroyed (hmsgEnd.keeps _ hj) hcl hholds hall hrest hlegal rfl
      · exact hcl.remaining.trans hadv.remaining
    · rw [if_neg (fun hcond => hf (hadv.fin.symm.trans hcond.2))]
      rw [Bool.not_eq_true] at hf
      have hlegal : Legal S.opens env.isClient true fs := by simpa [hf] using h.legal
      obtain ⟨hactive, hholds⟩ := hturn.resolve_right fun h => by simp [hf] at h
      refine ⟨hadv.recv, fun _ => ⟨⟨done, part ++ a, ?_⟩, hadv.remaining⟩, fun h => absurd rfl h⟩
      refine .going hd' hj (hactive.of_msg rfl) ?_ ⟨part ++ a, same hholds, ?_⟩
        ⟨m, rest, hall, by simpa using hp, (fun h => by cases h), hf ▸ hmore⟩ hlegal
      · simp [advance, hfrag]
      · simp [advance, hfrag]
  · have hpos : 0 < b.length := List.length_pos_iff.mpr hb
    have hrem' : (c'.advance a.length).streamRemaining = b.length := hadv.remaining
    rw [if_neg (fun hcond => by omega)]
    obtain ⟨hactive, hholds⟩ := hturn.resolve_right fun h => hb h.1.1
    refine ⟨hadv.recv, fun h => absurd h hb, fun _ => ⟨?_, ?_⟩⟩
    · have hfin' : (c'.advance a.length).streamFin = c.streamFin := hadv.fin
      exact ⟨hd', hj, hmode, hfrag, by rw [hfin']; exact h.legal, same hholds,
        by rw [hfin']; exact ⟨m, rest, hall, hp, hfin, hmore⟩, hactive.of_msg rfl⟩
    · exact ⟨hrem'.trans (by omega), hadv.mask, hadv.maskKey, hadv.maskOff⟩

-- ---- the reader ----

variable (S) in
def reader : Reader env where
  Clean := S.Clean
  Mid c fs := ∃ done part, S.Caught c fs done part
  In c r fs := ∃ done part, S.Inside c r fs done part
  Given _ := S.Sound
  Fair := S.Sound
  clean_mono := S.clean_mono
  mid_fair := fun ⟨_, _, h⟩ hc => ⟨h.right, h.just.closed hc⟩
  in_fair := fun ⟨_, _, h⟩ hc => ⟨h.right, h.just.closed hc⟩
  in_mode := fun ⟨_, _, h⟩ => h.mode
  fair_aside := fun h ha => h.aside ha
  given_fatal := fun hd h => h.aside (fatal_ended (fun n _ hd _ => notify_aside hg n hd) _ hd).aside
  mid_data := by
    rintro c fs b ⟨done, part, h⟩
    have h₁ := h.recv (c.recv ++ b)
    exact ⟨done, part, h₁.aside (emit_aside h₁.alive _ rfl) (emit_calm h₁.alive _)⟩
  in_data := by
    rintro c r fs b ⟨done, part, h⟩
    have h₁ : Calm c { c with recv := c.recv ++ b } := .same h.alive rfl rfl rfl rfl
    have h₂ := emit_aside h₁.destroyed .frameData rfl
    have hj := (h₁.trans (emit_calm h₁.destroyed .frameData)).keeps _ h.just
    have hholds : S.Holds { c with recv := c.recv ++ b } done part := same h.holds
    exact ⟨done, part, h.alive, hj, h.mode, h.frag, h.legal, S.keep h₂.silent.unheard h₂.rx.inflate hholds,
      h.owed, h.active.of_msg rfl⟩
  whole := by
    rintro c f fs x - hopen ⟨done, part, h⟩ hx hroom hclean
    rcases whole_caught hg hm hcap h hopen hx hroom hclean with
      ⟨c', heq, hrecv, hrem, hcaught⟩ | ⟨c', heq, hsound⟩
    · rw [heq]
      exact .inl ⟨rfl, hrecv, hrem, .inl hcaught⟩
    · rw [heq]
      exact .inr ⟨Err.wsWrite, rfl, by decide, hsound⟩
  begin := by
    rintro c f fs x - - ⟨done, part, h⟩ hx - hlen hclean
    obtain ⟨c', heq, hd, hin, hrest⟩ := begin_caught hg hm h hx hlen hclean
    exact ⟨c', heq, hd, ⟨done, part, hin⟩, hrest⟩
  consume := by
    rintro c a b x fs hd ⟨done, part, h⟩ ha hrecv hend hrem hroom hclean
    obtain ⟨hx, hdone, hgo⟩ := consume_caught hg hm hd h ha hrecv hend hrem hroom hclean
    exact ⟨hx, hdone, fun hb => ⟨⟨done, part ++ a, (hgo hb).1⟩, (hgo hb).2⟩⟩

omit hg hm hcap in
theorem Caught.done {c : Conn σ δ} {done part} (h : S.Caught c [] done part) : S.Holds c S.all [] := by
  have hmode : c.msg.mode = .none := by simpa [Legal] using h.legal
  obtain ⟨hholds, rfl, -⟩ := h.start hmode
  obtain ⟨rest, hall, hmap⟩ := h.due
  have hrest : rest = [] := List.map_eq_nil_iff.mp hmap
  rw [hall, hrest, List.append_nil]
  exact hholds

omit hg hm hcap in
-- Before the first frame.
theorem Caught.idle {c : Conn σ δ} {fs} (hidle : Idle c) (hholds : S.Holds c [] [])
    (hsince : S.since ≤ c.log.length) (hall : S.all.map Prod.fst = messages [] fs)
    (hlegal : Legal S.opens env.isClient false fs) : S.Caught c fs [] [] :=
  ⟨hidle.alive,
    ⟨hsince, .inl hidle.state, .inl hidle.stream, fun h => by cases h.symm.trans hidle.state⟩,
    by simp [hidle.frag], by simpa [hidle.mode] using hlegal, ⟨[], hholds, by simp [hidle.frag]⟩,
    ⟨S.all, rfl, hall⟩, fun _ => ⟨rfl, hidle.compressed⟩, fun h => absurd hidle.mode h⟩

-- Pushes of legal frames on an idle connection. `fut` has not been pushed yet.
theorem run_right {fs : List WireFrame} {pushes : List Bytes} {fut : Bytes} {c : Conn σ δ}
    (hidle : Idle c) (hholds : S.Holds c [] []) (hsince : S.since = c.log.length)
    (hall : S.all.map Prod.fst = messages [] fs) (hlegal : Legal S.opens env.isClient false fs)
    (hwire : pushes.flatten ++ fut = wire fs) (hsmall : ∀ d ∈ pushes, d.length ≤ env.recvCap / 2)
    (hmin : 1024 ≤ env.recvCap) (hclean : S.Clean (run env c (pushes.map .data)).log) :
    S.Right (run env c (pushes.map .data)) ∧
      ((run env c (pushes.map .data)).state = .closed →
        Faulty c.log.length (run env c (pushes.map .data)).log) ∧
      (fut = [] → (run env c (pushes.map .data)).state ≠ .closed →
        S.Holds (run env c (pushes.map .data)) S.all []) := by
  have hcaught : S.Caught c fs [] [] := .idle hidle hholds hsince.le hall hlegal
  have hrests : (S.reader hg hm hcap).Rests (pushes.flatten ++ fut) c :=
    .inl ⟨fs, ⟨hidle.alive, ⟨[], [], hcaught⟩, hidle.remaining, by simp [hidle.recv, hwire],
      by simp [hidle.recv]⟩, .inl hidle.recv⟩
  rw [← hsince]
  rcases Reader.run_ends hg hm hmin pushes hrests (.inl hidle.state) hidle.stream (.inl hsmall) hclean
    with ⟨hc, hright, hf⟩ | hend
  · exact ⟨hright, fun _ => hf, fun _ h => absurd hc h⟩
  · refine ⟨?_, fun hc => (hend.fair hc).2, fun hfut _ => ?_⟩
    · rcases hend with ⟨fs', h, -⟩ | ⟨r, fs', h, -⟩
      · obtain ⟨done, part, h⟩ := h.mid
        exact h.right
      · obtain ⟨done, part, h⟩ := h.inside
        exact h.right
    · subst hfut
      obtain ⟨⟨done, part, h⟩, -⟩ := hend.done
      exact h.done

end

end Sink

end Sevent.Ws
