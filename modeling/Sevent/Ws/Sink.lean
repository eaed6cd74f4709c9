import Sevent.Ws.Mild

-- Where the payload of a message goes: to on_message, straight or through inflate. The buffers in
-- front of it are the same for both, and what they do is proved over any such sink.
namespace Sevent.Ws

variable {σ δ : Type}

-- ---- what the user has heard ----

-- The messages that a fin callback has ended, and the bytes since the last one.
def hear : List Bytes × Bytes → Event → List Bytes × Bytes
  | (done, part), .onMessage _ data _ true _ => (done ++ [part ++ data], [])
  | (done, part), .onMessage _ data _ false _ => (done, part ++ data)
  | r, _ => r

def heard (log : List Event) : List Bytes × Bytes := log.foldl hear ([], [])

def Event.delivers : Event → Bool
  | .onMessage _ _ _ _ _ => true
  | _ => false

theorem hear_delivers {r : List Bytes × Bytes} {e : Event} (he : e.delivers = false) :
    hear r e = r := by
  cases e with
  | onMessage site data isBin fin total => cases he
  | _ => rfl

theorem foldl_hear {events : List Event} (h : ∀ e ∈ events, e.delivers = false)
    (r : List Bytes × Bytes) : events.foldl hear r = r := by
  induction events with
  | nil => rfl
  | cons e rest ih =>
      rw [List.foldl_cons, hear_delivers (h e (List.mem_cons_self ..))]
      exact ih fun e he => h e (List.mem_cons_of_mem _ he)

namespace Conn

-- The log has grown, and on_message was not called.
def Unheard (c c' : Conn σ δ) : Prop :=
  ∃ events, c'.log = c.log ++ events ∧ ∀ e ∈ events, e.delivers = false

theorem Silent.unheard {c c' : Conn σ δ} (h : Silent c c') : Unheard c c' := by
  obtain ⟨events, hlog, hs⟩ := h
  refine ⟨events, hlog, fun e he => ?_⟩
  have := hs e he
  cases e <;> simp_all [Event.spoken, Event.delivers]

-- The decompressor and its agreement.
def inflater (c : Conn σ δ) : Option (σ × Bool) :=
  c.deflate.map fun df => (df.inflate, df.serverNoContextTakeover)

end Conn

open Conn

-- ---- sinks ----

-- `all` pairs the payload of each message that is to come with what the user shall hear.
-- `Holds c done part`: the messages `done` have been delivered, and `part` of the payload of the
-- next one has been taken in. `Clean` is what the log of a run must not show, and `since` the
-- length of the log at its beginning.
structure Sink (env : Env σ δ) where
  compressed : Bool
  since : Nat
  all : List (Bytes × Bytes)
  Clean : List Event → Prop
  -- the message behind these may come in pieces
  Split : List (Bytes × Bytes) → Prop
  Holds : Conn σ δ → List (Bytes × Bytes) → Bytes → Prop
  clean_mono : ∀ {log log' : List Event}, log <+: log' → Clean log' → Clean log
  clean_stream : ∀ {c : Conn σ δ} {done part k}, Holds c done part →
    Clean (c.emit (.streamFrame .stream k)).log → k = 0
  clean_flush : compressed = true → ∀ {c : Conn σ δ} {done part k}, Holds c done part →
    Clean (c.emit (.fragFlush true true k)).log → k ≠ env.recvCap
  clean_first : compressed = true → ∀ {c : Conn σ δ} {done opcode len},
    Holds c done [] → Clean (c.emit (.dataFrame opcode len false true)).log → Split done
  clean_large : compressed = true → ∀ {c : Conn σ δ} {done k}, Holds c done [] →
    Clean (c.emit (.streamFrame .none k)).log → Split done
  keep : ∀ {c c' : Conn σ δ} {done part}, Unheard c c' → c'.inflater = c.inflater →
    Holds c done part → Holds c' done part
  ready : compressed = true → ∀ {c : Conn σ δ} {done part}, Holds c done part →
    c.deflate.isSome = true
  feed : compressed = false → ∀ {c : Conn σ δ} {done part}, c.destroyed = false →
    Holds c done part → ∀ site data isBin total,
    Holds (message env site data isBin false total c) done (part ++ data)
  finish : compressed = false → ∀ {c : Conn σ δ} {done part m rest}, c.destroyed = false →
    Holds c done part → all = done ++ m :: rest → ∀ site data isBin total, m.1 = part ++ data →
    Holds (message env site data isBin true total c) (done ++ [m]) []
  chunk : compressed = true → ∀ {c : Conn σ δ} {done part m rest}, c.destroyed = false →
    Holds c done part → all = done ++ m :: rest → Split done → ∀ data isBin, part ++ data <+: m.1 →
    data.length ≤ env.recvCap → Clean (decompressStreamChunk env data isBin c).2.log →
    (decompressStreamChunk env data isBin c).1 = 0 ∧
      Holds (decompressStreamChunk env data isBin c).2 done (part ++ data)
  flush : compressed = true → ∀ {c : Conn σ δ} {done m rest}, c.destroyed = false →
    c.msg.finSent = false → Holds c done m.1 → all = done ++ m :: rest → Split done → ∀ isBin,
    Clean (decompressStreamEnd env isBin c).2.log →
    Holds (decompressStreamEnd env isBin c).2 (done ++ [m]) []
  oneshot : compressed = true → ∀ {c : Conn σ δ} {done m rest}, c.destroyed = false →
    Holds c done [] → all = done ++ m :: rest → ∀ isBin, m.1.length ≤ env.recvCap →
    Clean (decompressOneshot env m.1 isBin c).2.log →
    (decompressOneshot env m.1 isBin c).1 = 0 ∧
      Holds (decompressOneshot env m.1 isBin c).2 (done ++ [m]) []

namespace Sink

variable {env : Env σ δ} (S : Sink env)

-- A message is being put together.
structure Active (c : Conn σ δ) (done : List (Bytes × Bytes)) : Prop where
  mode : c.msg.mode ≠ .none
  compressed : c.msg.compressed = S.compressed
  opcode : S.compressed = false → c.msg.opcode = Opcode.binary
  finSent : c.msg.finSent = false
  split : S.compressed = true → S.Split done

-- The part of the message that has come, in the sink and in frag_buf.
def Held (c : Conn σ δ) (done : List (Bytes × Bytes)) (part : Bytes) : Prop :=
  ∃ fed, S.Holds c done fed ∧ fed ++ c.frag = part

-- Another connection at the same place of the same message.
structure Kept (c c' : Conn σ δ) : Prop extends SameFrame c c' where
  mode : c'.msg.mode = c.msg.mode
  opcode : c'.msg.opcode = c.msg.opcode
  compressed : c'.msg.compressed = c.msg.compressed
  finSent : c'.msg.finSent = c.msg.finSent

-- The message is over.
structure Cleared (c c' : Conn σ δ) : Prop extends SameFrame c c' where
  mode : c'.msg.mode = .none
  compressed : c'.msg.compressed = false
  frag : c'.frag = []

variable {S}

theorem Kept.trans {a b c : Conn σ δ} (h : Kept a b) (h' : Kept b c) : Kept a c :=
  ⟨h.toSameFrame.trans h'.toSameFrame, h'.mode.trans h.mode, h'.opcode.trans h.opcode,
    h'.compressed.trans h.compressed, h'.finSent.trans h.finSent⟩

theorem Kept.of_same {c c' : Conn σ δ} (h : SameBuf c c') : Kept c c' :=
  ⟨h.toSameFrame, by rw [h.msg], by rw [h.msg], by rw [h.msg], by rw [h.msg]⟩

theorem Kept.refl (c : Conn σ δ) : Kept c c := .of_same (SameBuf.refl c)

theorem Active.kept {c c' : Conn σ δ} {done} (ha : S.Active c done) (h : Kept c c') :
    S.Active c' done :=
  ⟨h.mode ▸ ha.mode, h.compressed.trans ha.compressed, fun hs => h.opcode.trans (ha.opcode hs),
    h.finSent.trans ha.finSent, ha.split⟩

theorem Active.of_msg {c c' : Conn σ δ} {done} (ha : S.Active c done) (h : c'.msg = c.msg) :
    S.Active c' done :=
  ⟨h ▸ ha.mode, h ▸ ha.compressed, h ▸ ha.opcode, h ▸ ha.finSent, ha.split⟩

theorem Active.isBin {c : Conn σ δ} {done} (ha : S.Active c done) (hs : S.compressed = false) :
    c.isBin = true := by
  simp [Conn.isBin, ha.opcode hs]

-- A message that is not checked for UTF-8.
theorem Active.known {c : Conn σ δ} {done} (ha : S.Active c done) :
    c.msg.compressed = true ∨ c.isBin = true := by
  cases hs : S.compressed with
  | true => exact .inl (ha.compressed.trans hs)
  | false => exact .inr (ha.isBin hs)

-- Buffers change, the sink does not notice.
theorem same {c c' : Conn σ δ} {done part} (hh : S.Holds c done part)
    (hlog : c'.log = c.log := by rfl) (hdf : c'.deflate = c.deflate := by rfl) :
    S.Holds c' done part :=
  S.keep (Silent.of_log hlog).unheard (by rw [inflater, inflater, hdf]) hh

theorem noted {c : Conn σ δ} {done part} (hh : S.Holds c done part) (e : Event)
    (he : e.delivers = false) : S.Holds (c.emit e) done part :=
  S.keep ⟨[e], rfl, by simpa using he⟩ rfl hh

section

variable (hg : env.Gentle) (hm : env.onMessage.isSome = true)

include hg hm

-- ---- the buffers ----

-- A part that ends no message, on either way.
theorem deliver {c : Conn σ δ} {done fed m rest} (hd : c.destroyed = false)
    (hcomp : c.msg.compressed = S.compressed) (hh : S.Holds c done fed)
    (hall : S.all = done ++ m :: rest) (hsplit : S.compressed = true → S.Split done) (site : Site)
    (data : Bytes) (isBin : Bool) (hp : fed ++ data <+: m.1) (hlen : data.length ≤ env.recvCap) {c' : Conn σ δ}
    (hc' : c' = if c.msg.compressed then (decompressStreamChunk env data isBin c).2
      else message env site data isBin false 0 c) (hclean : S.Clean c'.log) :
    SameBuf c c' ∧ S.Holds c' done (fed ++ data) := by
  cases hs : S.compressed with
  | true =>
      rw [if_pos (hcomp.trans hs)] at hc'
      subst hc'
      exact ⟨decompressStreamChunk_sameBuf hg hm data isBin hd,
        (S.chunk hs hd hh hall (hsplit hs) data isBin hp hlen hclean).2⟩
  | false =>
      rw [if_neg (by simp [hcomp, hs])] at hc'
      subst hc'
      exact ⟨message_sameBuf hg hm _ _ _ _ _ hd, S.feed hs hd hh site data isBin 0⟩

theorem msgEnd_finish {c : Conn σ δ} {done m rest} (hd : c.destroyed = false) (ha : S.Active c done)
    (hh : S.Holds c done m.1) (hall : S.all = done ++ m :: rest) (isBin : Bool)
    (hclean : S.Clean (msgEnd env isBin c).log) :
    Cleared c (msgEnd env isBin c) ∧ S.Holds (msgEnd env isBin c) (done ++ [m]) [] := by
  unfold msgEnd at hclean ⊢
  rw [if_neg ha.mode] at hclean ⊢
  cases hs : S.compressed with
  | true =>
      rw [if_pos (ha.compressed.trans hs)] at hclean ⊢
      have hframe := decompressStreamEnd_sameFrame hg hm isBin hd
      have hholds := S.flush hs hd ha.finSent hh hall (ha.split hs) isBin hclean
      exact ⟨⟨hframe.trans ⟨rfl, rfl, rfl, rfl, rfl, rfl⟩, rfl, rfl, rfl⟩, same hholds⟩
  | false =>
      rw [if_neg (by simp [ha.compressed, hs]), if_pos (by simp [ha.finSent, hm])]
      have hsame := message_sameBuf hg hm .msgEnd [] isBin true c.msg.total hd
      have hholds := S.finish hs hd hh hall .msgEnd [] isBin c.msg.total (List.append_nil _).symm
      exact ⟨⟨hsame.toSameFrame.trans ⟨rfl, rfl, rfl, rfl, rfl, rfl⟩, rfl, rfl, rfl⟩, same hholds⟩

omit hg hm in
-- fin has been sent with the last bytes.
theorem msgEnd_sent {c : Conn σ δ} {done} (hcomp : c.msg.compressed = false)
    (hsent : c.msg.finSent = true) (hh : S.Holds c done []) (isBin : Bool) :
    Cleared c (msgEnd env isBin c) ∧ S.Holds (msgEnd env isBin c) done [] := by
  have e : msgEnd env isBin c =
      { c with
        msg := { c.msg with mode := .none, compressed := false, total := 0, finSent := false }
        frag := [] } := by
    unfold msgEnd
    simp [hcomp, hsent]
  rw [e]
  exact ⟨⟨⟨rfl, rfl, rfl, rfl, rfl, rfl⟩, rfl, rfl, rfl⟩, same hh⟩

omit hg hm in
theorem fragAppend_ret {data : Bytes} (hlen : data.length ≤ env.recvCap) (c : Conn σ δ) :
    (fragAppend env data c).1 = 0 := by
  unfold fragAppend
  split
  · rfl
  split
  · omega
  · dsimp only
    rw [apply_ite Prod.fst]
    exact ite_self _

theorem fragAppend_held {c : Conn σ δ} {done part m rest} (hd : c.destroyed = false)
    (ha : S.Active c done) (hh : S.Held c done part) (hall : S.all = done ++ m :: rest) (data : Bytes)
    (hp : part ++ data <+: m.1) (hlen : data.length ≤ env.recvCap)
    (hfrag : c.frag.length ≤ env.recvCap) (hclean : S.Clean (fragAppend env data c).2.log) :
    Kept c (fragAppend env data c).2 ∧
      S.Held (fragAppend env data c).2 done (part ++ data) ∧
      (fragAppend env data c).2.frag.length ≤ env.recvCap := by
  obtain ⟨fed, hholds, hpart⟩ := hh
  unfold fragAppend at hclean ⊢
  by_cases hnil : data = []
  · simp only [hnil, List.append_nil]
    exact ⟨.refl c, ⟨fed, hholds, hpart⟩, hfrag⟩
  rw [if_neg hnil, if_neg (by omega)] at hclean ⊢
  by_cases hover : c.frag.length + data.length > env.recvCap
  · have hne : c.frag ≠ [] := by
      intro h
      simp [h] at hover
      omega
    simp only [if_pos hover, hm, hne, true_and, if_true, ne_eq, not_false_eq_true] at hclean ⊢
    generalize hc₁ : (if c.msg.compressed = true then (decompressStreamChunk env c.frag c.isBin c).2
      else message env .fragAppend c.frag c.isBin false 0 c) = c₁ at hclean ⊢
    have hmild : Calm c c₁ := by
      rw [← hc₁]
      split
      · exact decompressStreamChunk_calm hg hm _ _ hd
      · exact message_calm hg _ _ _ _ _ hd
    simp only [hmild.destroyed, Bool.false_eq_true, and_false, if_false] at hclean ⊢
    have hpre : fed ++ c.frag <+: m.1 := hpart ▸ (List.prefix_append _ _).trans hp
    obtain ⟨hsame, hholds₁⟩ := deliver hg hm hd ha.compressed hholds hall ha.split .fragAppend c.frag c.isBin
      hpre hfrag hc₁.symm hclean
    refine ⟨(Kept.of_same hsame).trans ⟨⟨rfl, rfl, rfl, rfl, rfl, rfl⟩, rfl, rfl, rfl, rfl⟩,
      ⟨fed ++ c.frag, same hholds₁, by simp [hpart]⟩, by simpa using hlen⟩
  · simp only [if_neg hover, Bool.false_eq_true, if_false]
    refine ⟨⟨⟨rfl, rfl, rfl, rfl, rfl, rfl⟩, rfl, rfl, rfl, rfl⟩,
      ⟨fed, same hholds, by simp [← hpart]⟩, ?_⟩
    rw [List.length_append]
    omega

theorem fragFlushTail_held {c : Conn σ δ} {done part m rest} (hd : c.destroyed = false)
    (ha : S.Active c done) (hh : S.Held c done part) (hall : S.all = done ++ m :: rest)
    (hp : part <+: m.1) (hfrag : c.frag.length ≤ env.recvCap)
    (hclean : S.Clean (fragFlushTail env c).log) :
    Kept c (fragFlushTail env c) ∧ S.Holds (fragFlushTail env c) done part ∧
      (fragFlushTail env c).frag = [] := by
  obtain ⟨fed, hholds, hpart⟩ := hh
  unfold fragFlushTail at hclean ⊢
  by_cases hnil : c.frag = []
  · rw [if_pos hnil]
    rw [hnil, List.append_nil] at hpart
    exact ⟨.refl c, hpart ▸ hholds, hnil⟩
  · simp only [if_neg hnil, hm, if_true] at hclean ⊢
    generalize hc₁ : (if c.msg.compressed = true then (decompressStreamChunk env c.frag c.isBin c).2
      else message env .fragFlushTail c.frag c.isBin false 0 c) = c₁ at hclean ⊢
    obtain ⟨hsame, hholds₁⟩ := deliver hg hm hd ha.compressed hholds hall ha.split .fragFlushTail c.frag
      c.isBin (hpart.symm ▸ hp) hfrag hc₁.symm hclean
    rw [hpart] at hholds₁
    exact ⟨(Kept.of_same hsame).trans ⟨⟨rfl, rfl, rfl, rfl, rfl, rfl⟩, rfl, rfl, rfl, rfl⟩,
      same hholds₁, trivial⟩

omit hg hm in
theorem fragBlocks_stop (fin : Bool) (fuel : Nat) (c : Conn σ δ)
    (h : c.frag.length < env.recvCap ∨
      c.frag.length ≤ env.recvCap ∧ fin = false ∧ c.msg.compressed = false) :
    fragBlocks env fin fuel c = (false, c) := by
  cases fuel with
  | zero => rfl
  | succ fuel =>
      unfold fragBlocks
      rw [if_neg]
      rintro ⟨hge, hgo⟩
      rcases h with h | ⟨hle, hf, hc⟩
      · omega
      · rcases hgo with hgo | hgo | hgo
        · simp [hf] at hgo
        · omega
        · simp [hc] at hgo

-- A full buffer is one block.
omit hg hm in
theorem fragBlocks_compressed (fuel : Nat) {c c₁ : Conn σ δ} (hfull : c.frag.length = env.recvCap)
    (hcomp : c.msg.compressed = true)
    (hc₁ : c₁ = (decompressStreamChunk env c.frag c.isBin c).2) (hd : c₁.destroyed = false) :
    fragBlocks env false (fuel + 1) c =
      fragBlocks env false fuel { c₁ with frag := c₁.frag.drop env.recvCap } := by
  have htake : c.frag.take env.recvCap = c.frag := List.take_of_length_le hfull.le
  conv => lhs; unfold fragBlocks
  rw [if_pos ⟨hfull.ge, .inr (.inr hcomp)⟩]
  simp only [Bool.false_and, Bool.false_eq_true, if_false, hcomp, if_true, htake]
  rw [← hc₁, if_neg (by simp [hd])]

omit hg hm in
theorem fragBlocks_plain (fuel : Nat) {c c₁ : Conn σ δ} (hfull : c.frag.length = env.recvCap)
    (hcomp : c.msg.compressed = false)
    (hc₁ : c₁ = message env .fragFlush c.frag c.isBin true c.msg.total
      { c with msg := { c.msg with finSent := true } }) (hd : c₁.destroyed = false) :
    fragBlocks env true (fuel + 1) c =
      fragBlocks env true fuel { c₁ with frag := c₁.frag.drop env.recvCap } := by
  have htake : c.frag.take env.recvCap = c.frag := List.take_of_length_le hfull.le
  conv => lhs; unfold fragBlocks
  rw [if_pos ⟨hfull.ge, .inl rfl⟩]
  extract_lets last msg c' block c₂
  have hlast : last = true := by simp [last, hfull]
  have hc' : c' = { c with msg := { c.msg with finSent := true } } := if_pos hlast
  have hc₂ : c₂ = c₁ := by
    simp only [c₂, block, hc', hlast, if_true, htake]
    rw [if_neg (by simp [hcomp]), hc₁]
    rfl
  rw [hc₂, if_neg (by simp [hd])]

theorem fragFlush_more {c : Conn σ δ} {done part m rest} (hd : c.destroyed = false)
    (ha : S.Active c done) (hh : S.Held c done part) (hall : S.all = done ++ m :: rest)
    (hp : part <+: m.1) (hcap : 0 < env.recvCap) (hfrag : c.frag.length ≤ env.recvCap)
    (hclean : S.Clean (fragFlush env false c).log) :
    Kept c (fragFlush env false c) ∧ S.Held (fragFlush env false c) done part ∧
      (fragFlush env false c).frag.length ≤ env.recvCap := by
  obtain ⟨fed, hholds, hpart⟩ := hh
  unfold fragFlush at hclean ⊢
  simp only [Bool.not_false, or_true, if_true] at hclean ⊢
  have h₀ := emit_aside hd (.fragFlush c.msg.compressed false c.frag.length) rfl
  have hholds₀ := S.keep h₀.silent.unheard h₀.rx.inflate hholds
  have hkept₀ := Kept.of_same h₀.rx.sameBuf
  have hf₀ : (c.emit (.fragFlush c.msg.compressed false c.frag.length)).frag = c.frag := rfl
  generalize c.emit (.fragFlush c.msg.compressed false c.frag.length) = c₀ at *
  rw [← hf₀] at hpart hfrag hclean ⊢
  by_cases hfull : c₀.frag.length = env.recvCap ∧ S.compressed = true
  · obtain ⟨hfull, hs⟩ := hfull
    have hcomp : c₀.msg.compressed = true := (hkept₀.compressed.trans ha.compressed).trans hs
    have hmild := decompressStreamChunk_calm hg hm c₀.frag c₀.isBin h₀.destroyed
    have hsame := decompressStreamChunk_sameBuf hg hm c₀.frag c₀.isBin h₀.destroyed
    have hchunk := S.chunk hs h₀.destroyed hholds₀ hall (ha.split hs) c₀.frag c₀.isBin (hpart.symm ▸ hp) hfrag
    obtain ⟨fuel, hfuel⟩ : ∃ fuel, c₀.frag.length = fuel + 1 := ⟨c₀.frag.length - 1, by omega⟩
    generalize hc₁ : (decompressStreamChunk env c₀.frag c₀.isBin c₀).2 = c₁ at hmild hsame hchunk
    rw [hfuel, fragBlocks_compressed fuel hfull hcomp hc₁.symm hmild.destroyed] at hclean ⊢
    have hrest : Calm c₁ (fragBlocks env false fuel
        { c₁ with frag := c₁.frag.drop env.recvCap }).2 :=
      (Calm.refl hmild.destroyed).next (fragBlocks_calm hg hm false fuel)
    have hholds₁ := (hchunk (S.clean_mono hrest.log hclean)).2
    rw [fragBlocks_stop false fuel _ (.inl (by simpa [hsame.frag, hfull] using hcap))]
    refine ⟨(hkept₀.trans (.of_same hsame)).trans ⟨⟨rfl, rfl, rfl, rfl, rfl, rfl⟩, rfl, rfl, rfl, rfl⟩,
      ⟨fed ++ c₀.frag, same hholds₁, ?_⟩, by simp [hsame.frag, hfull]⟩
    simp [hsame.frag, ← hfull, hpart]
  · rw [fragBlocks_stop false c₀.frag.length c₀]
    · exact ⟨hkept₀, ⟨fed, hholds₀, hpart⟩, hfrag⟩
    · by_cases hlt : c₀.frag.length < env.recvCap
      · exact .inl hlt
      · refine .inr ⟨hfrag, rfl, ?_⟩
        rw [hkept₀.compressed, ha.compressed]
        by_contra hs
        exact hfull ⟨by omega, by simpa using hs⟩

omit hg hm in
theorem Cleared.of_kept {a b c : Conn σ δ} (h : Kept a b) (h' : Cleared b c) : Cleared a c :=
  ⟨h.toSameFrame.trans h'.toSameFrame, h'.mode, h'.compressed, h'.frag⟩

-- The last bytes of an uncompressed message.
theorem sent_plain {c c₁ : Conn σ δ} {done fed m rest} (hd : c.destroyed = false)
    (ha : S.Active c done) (hs : S.compressed = false) (hholds : S.Holds c done fed)
    (hall : S.all = done ++ m :: rest) (data : Bytes) (hp : m.1 = fed ++ data) (isBin : Bool)
    (hc₁ : c₁ = message env .fragFlush data isBin true c.msg.total
      { c with msg := { c.msg with finSent := true } }) :
    Calm c c₁ ∧ SameBuf { c with msg := { c.msg with finSent := true } } c₁ ∧
      Cleared c (msgEnd env isBin { c₁ with frag := [] }) ∧
      S.Holds (msgEnd env isBin { c₁ with frag := [] }) (done ++ [m]) [] := by
  have hmild : Calm c c₁ := by
    rw [hc₁]
    exact (Calm.refl hd).next (message_calm hg .fragFlush data isBin true c.msg.total)
  have hsame : SameBuf { c with msg := { c.msg with finSent := true } } c₁ := by
    rw [hc₁]
    exact message_sameBuf hg hm .fragFlush data isBin true c.msg.total hd
  have hholds₁ : S.Holds c₁ (done ++ [m]) [] := by
    rw [hc₁]
    exact S.finish (c := { c with msg := { c.msg with finSent := true } }) hs hd (same hholds) hall
      .fragFlush data isBin c.msg.total hp
  obtain ⟨hcleared, hend⟩ := msgEnd_sent (S := S) (c := { c₁ with frag := [] })
    ((congrArg MsgState.compressed hsame.msg).trans (ha.compressed.trans hs))
    (congrArg MsgState.finSent hsame.msg) (same hholds₁) isBin
  refine ⟨hmild, hsame, ⟨?_, hcleared.mode, hcleared.compressed, hcleared.frag⟩, hend⟩
  exact ⟨hcleared.recv.trans hsame.recv, hcleared.remaining.trans hsame.remaining,
    hcleared.fin.trans hsame.fin, hcleared.mask.trans hsame.mask,
    hcleared.maskKey.trans hsame.maskKey, hcleared.maskOff.trans hsame.maskOff⟩

theorem fragRest_finish {c : Conn σ δ} {done m rest} (hd : c.destroyed = false) (ha : S.Active c done)
    (hh : S.Held c done m.1) (hall : S.all = done ++ m :: rest)
    (hfrag : c.frag.length ≤ env.recvCap) (hclean : S.Clean (fragRest env c.isBin c).log) :
    Cleared c (fragRest env c.isBin c) ∧ S.Holds (fragRest env c.isBin c) (done ++ [m]) [] := by
  obtain ⟨fed, hholds, hpart⟩ := hh
  unfold fragRest at hclean ⊢
  by_cases hnil : c.frag = []
  · rw [if_pos hnil] at hclean ⊢
    rw [hnil, List.append_nil] at hpart
    exact msgEnd_finish hg hm hd ha (hpart ▸ hholds) hall c.isBin hclean
  rw [if_neg hnil] at hclean ⊢
  cases hs : S.compressed with
  | true =>
      rw [if_pos (ha.compressed.trans hs)] at hclean ⊢
      have hmild := decompressStreamChunk_calm hg hm c.frag c.isBin hd
      have hsame := decompressStreamChunk_sameBuf hg hm c.frag c.isBin hd
      have hchunk := S.chunk hs hd hholds hall (ha.split hs) c.frag c.isBin (hpart ▸ List.prefix_rfl) hfrag
      generalize (decompressStreamChunk env c.frag c.isBin c).2 = c₁ at hmild hsame hchunk hclean ⊢
      rw [if_neg (by simp [hmild.destroyed])] at hclean ⊢
      have hend : Calm c₁ (msgEnd env c.isBin { c₁ with frag := [] }) :=
        (Calm.refl hmild.destroyed).next (msgEnd_calm hg hm c.isBin)
      have hholds₁ := (hchunk (S.clean_mono hend.log hclean)).2
      have hkept : Kept c { c₁ with frag := [] } :=
        (Kept.of_same hsame).trans ⟨⟨rfl, rfl, rfl, rfl, rfl, rfl⟩, rfl, rfl, rfl, rfl⟩
      obtain ⟨hcleared, hholds₂⟩ := msgEnd_finish (c := { c₁ with frag := [] }) hg hm
        hmild.destroyed (ha.kept hkept) (same (hpart ▸ hholds₁)) hall c.isBin hclean
      exact ⟨.of_kept hkept hcleared, hholds₂⟩
  | false =>
      rw [if_neg (by simp [ha.compressed, hs]), if_neg (by simp [ha.isBin hs])]
      obtain ⟨hmild, -, hend⟩ := sent_plain hg hm hd ha hs hholds hall c.frag hpart.symm c.isBin rfl
      dsimp only at hmild hend ⊢
      rw [if_neg (by simp [hmild.destroyed])]
      exact hend

theorem fragFlush_finish {c : Conn σ δ} {done m rest} (hd : c.destroyed = false) (ha : S.Active c done)
    (hh : S.Held c done m.1) (hall : S.all = done ++ m :: rest) (hcap : 0 < env.recvCap)
    (hfrag : c.frag.length ≤ env.recvCap) (hclean : S.Clean (fragFlush env true c).log) :
    Cleared c (fragFlush env true c) ∧ S.Holds (fragFlush env true c) (done ++ [m]) [] := by
  obtain ⟨fed, hholds, hpart⟩ := hh
  have hentered := S.clean_mono (fragFlush_entered hg hm true hd).log hclean
  unfold fragFlush at hclean ⊢
  have h₀ := emit_aside hd (.fragFlush c.msg.compressed true c.frag.length) rfl
  have hroom : S.compressed = true → c.frag.length ≠ env.recvCap := fun hs =>
    S.clean_flush hs hholds (by rwa [ha.compressed, hs] at hentered)
  have hholds₀ := S.keep h₀.silent.unheard h₀.rx.inflate hholds
  have hkept₀ := Kept.of_same h₀.rx.sameBuf
  have hf₀ : (c.emit (.fragFlush c.msg.compressed true c.frag.length)).frag = c.frag := rfl
  have hbin₀ : (c.emit (.fragFlush c.msg.compressed true c.frag.length)).isBin = c.isBin := rfl
  generalize c.emit (.fragFlush c.msg.compressed true c.frag.length) = c₀ at *
  have ha₀ := ha.kept hkept₀
  rw [← hf₀] at hpart hfrag hroom hclean ⊢
  rw [← hbin₀] at hclean ⊢
  by_cases hfull : c₀.frag.length = env.recvCap
  · have hs : S.compressed = false := by
      cases hs : S.compressed with
      | true => exact absurd hfull (hroom hs)
      | false => rfl
    obtain ⟨fuel, hfuel⟩ : ∃ fuel, c₀.frag.length = fuel + 1 := ⟨c₀.frag.length - 1, by omega⟩
    obtain ⟨hmild, hsame, hcleared, hend⟩ := sent_plain hg hm h₀.destroyed ha₀ hs hholds₀ hall
      c₀.frag hpart.symm c₀.isBin rfl
    have hblocks := fragBlocks_plain fuel hfull (ha₀.compressed.trans hs) rfl hmild.destroyed
    have hdrop : List.drop env.recvCap (message env .fragFlush c₀.frag c₀.isBin true c₀.msg.total
        { c₀ with msg := { c₀.msg with finSent := true } }).frag = [] := by
      rw [hsame.frag, ← hfull, List.drop_length]
    rw [hdrop, fragBlocks_stop true fuel _ (.inl (by exact hcap))] at hblocks
    rw [hfuel, hblocks]
    simp only [Bool.false_eq_true, Bool.not_true, or_self, if_false]
    rw [fragRest, if_pos rfl]
    exact ⟨.of_kept hkept₀ hcleared, hend⟩
  · rw [fragBlocks_stop true c₀.frag.length c₀ (.inl (by omega))] at hclean ⊢
    simp only [Bool.false_eq_true, Bool.not_true, or_self, if_false] at hclean ⊢
    obtain ⟨hcleared, hholds₁⟩ := fragRest_finish hg hm h₀.destroyed ha₀ ⟨fed, hholds₀, hpart⟩ hall
      hfrag hclean
    exact ⟨.of_kept hkept₀ hcleared, hholds₁⟩

end

end Sink

end Sevent.Ws
