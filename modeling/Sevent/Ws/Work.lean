import Sevent.Ws.Acts

-- The receiving side as acts: every delivery of the nested loops is Ready.
namespace Sevent.Ws.Conn

variable {σ δ : Type} {env : Env σ δ}

-- Acts that leave the streamed frame alone.
def Work (env : Env σ δ) (c c' : Conn σ δ) : Prop :=
  Acts env c c' ∧ c'.streamRemaining = c.streamRemaining

theorem Work.refl (c : Conn σ δ) : Work env c c := ⟨.refl, rfl⟩

theorem Work.trans {a b c : Conn σ δ} (h : Work env a b) (h' : Work env b c) : Work env a c :=
  ⟨h.1.trans h'.1, h'.2.trans h.2⟩

theorem Work.wf {c c' : Conn σ δ} (h : Work env c c') (hw : Wf env c) : Wf env c' := h.1.wf hw

theorem Moves.acts {c c' : Conn σ δ} (h : Moves env c c') : Acts env c c' :=
  Relation.ReflTransGen.mono (fun _ _ hm => Act.move hm) _ _ h

theorem Moves.work {c c' : Conn σ δ} (h : Moves env c c') : Work env c c' :=
  ⟨Moves.acts h, h.sameRx.remaining⟩

theorem work_note (c : Conn σ δ) (e : Event) (he : e.plain = true) : Work env c (c.emit e) :=
  Moves.work (.single (Move.note c e he))

theorem acts_quiet {c c' : Conn σ δ} (hw : Wf env c) (hs : SameTx c c')
    (hr : c'.recv.length ≤ c.recv.length) (hf : c'.frag.length ≤ c.frag.length) : Acts env c c' :=
  .single (Act.quiet hs (hr.trans hw.recv_le) (hf.trans hw.frag_le))

theorem work_quiet {c c' : Conn σ δ} (hw : Wf env c) (hs : SameTx c c')
    (hr : c'.recv.length ≤ c.recv.length) (hf : c'.frag.length ≤ c.frag.length)
    (hrem : c'.streamRemaining = c.streamRemaining) : Work env c c' :=
  ⟨acts_quiet hw hs hr hf, hrem⟩

theorem work_msg {c : Conn σ δ} (hw : Wf env c) (msg : MsgState) : Work env c { c with msg := msg } :=
  work_quiet hw ⟨rfl, rfl, rfl, rfl, rfl, rfl, id⟩ le_rfl le_rfl rfl

theorem work_frag {c : Conn σ δ} (hw : Wf env c) (n : Nat) :
    Work env c { c with frag := c.frag.drop n } :=
  work_quiet hw ⟨rfl, rfl, rfl, rfl, rfl, rfl, id⟩ le_rfl (by simp) rfl

-- ---- messages ----

theorem message_work (site : Site) (data : Bytes) (isBin fin : Bool) (total : Nat) (c : Conn σ δ)
    (hr : Ready c.log) : Work env c (message env site data isBin fin total c) := by
  unfold message
  cases hm : env.onMessage with
  | none => exact work_note c _ rfl
  | some cb =>
      have hd : Work env c (c.emit (.onMessage site data isBin fin total)) :=
        ⟨.single (Act.deliver c _ rfl hr), rfl⟩
      exact (hd.trans (Moves.work (callback_moves env cb _ c))).trans (work_note _ _ rfl)

variable (env) in
theorem message_sameRx (site : Site) (data : Bytes) (isBin fin : Bool) (total : Nat)
    (c : Conn σ δ) : SameRx c (message env site data isBin fin total c) := by
  have hemit : ∀ (c : Conn σ δ) e, SameRx c (c.emit e) := fun c e => by constructor <;> rfl
  unfold message
  cases hm : env.onMessage with
  | none => exact hemit c _
  | some cb => exact ((hemit c _).trans (callback_moves env cb _ c).sameRx).trans (hemit _ _)

-- After the calls that the source does not look back at.
theorem message_ready (site : Site) (data : Bytes) (isBin fin : Bool) (total : Nat) (c : Conn σ δ)
    (hs : site.resumes fin = true) (hr : Ready c.log) :
    Ready (message env site data isBin fin total c).log := by
  have hwork : Work env c _ := message_work site data isBin fin total c hr
  have hp := Acts.log_grows hwork.1
  refine ⟨hr.1.mono hp, fun ht => ?_⟩
  unfold message at ht ⊢
  cases hm : env.onMessage with
  | none =>
      simp only [hm, emit, terminated_append] at ht
      rcases ht with ht | ⟨e, he, ht⟩
      · exact (hr.2 ht).mono (List.prefix_append _ _)
      · rw [List.mem_singleton.mp he] at ht
        cases ht
  | some cb =>
      simp only [hm, emit] at ht ⊢
      rw [terminated_append] at ht
      rcases ht with ht | ⟨e, he, ht⟩
      · exact .inl ⟨_, .messageReturned site fin, List.prefix_rfl, hs, ht⟩
      · rw [List.mem_singleton.mp he] at ht
        cases ht

-- ---- inflate ----

-- Work after which the source goes on delivering: it is still Ready, with its buffers in place.
structure Resumes (env : Env σ δ) (c c' : Conn σ δ) : Prop where
  work : Work env c c'
  ready : Ready c'.log
  msg : c'.msg = c.msg
  frag : c'.frag = c.frag
  recv : c'.recv = c.recv

theorem Resumes.refl {c : Conn σ δ} (hr : Ready c.log) : Resumes env c c :=
  ⟨Work.refl c, hr, rfl, rfl, rfl⟩

theorem Resumes.trans {a b c : Conn σ δ} (h : Resumes env a b) (h' : Resumes env b c) :
    Resumes env a c :=
  ⟨h.work.trans h'.work, h'.ready, h'.msg.trans h.msg, h'.frag.trans h.frag, h'.recv.trans h.recv⟩

theorem setInflate_resumes {c : Conn σ δ} (hw : Wf env c) (s : σ) (hr : Ready c.log) :
    Resumes env c (c.setInflate s) :=
  ⟨work_quiet hw ⟨rfl, rfl, rfl, rfl, rfl, rfl, by simp [setInflate]⟩ le_rfl le_rfl rfl, hr, rfl, rfl,
    rfl⟩

theorem alloc_resumes {c : Conn σ δ} (hr : Ready c.log) : Resumes env c (c.alloc env).2 :=
  ⟨work_note c _ rfl, hr.append _ (by simp [Event.terminal]), rfl, rfl, rfl⟩

theorem message_resumes (site : Site) (data : Bytes) (isBin fin : Bool) (total : Nat)
    (c : Conn σ δ) (hs : site.resumes fin = true) (hr : Ready c.log) :
    Resumes env c (message env site data isBin fin total c) :=
  have hsame := message_sameRx env site data isBin fin total c
  ⟨message_work site data isBin fin total c hr, message_ready site data isBin fin total c hs hr,
    hsame.msg, hsame.frag, hsame.recv⟩

theorem inflateLoop_resumes (l : InflateLoop) (isBin : Bool) (hl : l.site.resumes false = true)
    (fuel : Nat) (s : σ) (input : Bytes) (c : Conn σ δ) (hw : Wf env c) (hr : Ready c.log) :
    Resumes env c (inflateLoop env l isBin fuel s input c).2.2 := by
  induction fuel generalizing s input c with
  | zero => exact setInflate_resumes hw s hr
  | succ fuel ih =>
      unfold inflateLoop
      extract_lets r rest c₁ c₂
      by_cases h1 : r.res = .bufError ∧ rest ≠ []
      · rw [if_pos h1]
        exact setInflate_resumes hw _ hr
      rw [if_neg h1]
      by_cases h2 : r.res = .error ∨ (r.res = .streamEnd ∧ !l.acceptEnd)
      · rw [if_pos h2]
        exact setInflate_resumes hw _ hr
      rw [if_neg h2]
      have hturn : Resumes env c c₂ := by
        refine (setInflate_resumes hw r.state hr).trans ?_
        by_cases hout : r.out ≠ []
        · simp only [c₂, if_pos hout]
          exact message_resumes _ _ _ _ _ c₁ hl hr
        · simp only [c₂, if_neg hout]
          exact Resumes.refl hr
      split
      · exact hturn
      · split
        · exact hturn
        · exact hturn.trans (ih r.state rest c₂ (hturn.work.wf hw) hturn.ready)

theorem decompressStreamChunk_resumes (data : Bytes) (isBin : Bool) (c : Conn σ δ)
    (hw : Wf env c) (hr : Ready c.log) : Resumes env c (decompressStreamChunk env data isBin c).2 := by
  unfold decompressStreamChunk
  split
  · exact Resumes.refl hr
  · cases hd : c.deflate with
    | none => exact Resumes.refl hr
    | some df =>
        have ha : Resumes env c (c.alloc env).2 := alloc_resumes hr
        dsimp only
        split
        · exact ha
        · exact ha.trans (inflateLoop_resumes _ isBin rfl _ _ _ _ (ha.work.wf hw) ha.ready)

theorem inflateRest_work {c : Conn σ δ} (hw : Wf env c) : Work env c (c.inflateRest env) :=
  work_quiet hw ⟨rfl, rfl, rfl, rfl, rfl, rfl, by simp [inflateRest]⟩ le_rfl le_rfl rfl

theorem decompressStreamEnd_work (isBin : Bool) (c : Conn σ δ) (hw : Wf env c)
    (hr : Ready c.log) : Work env c (decompressStreamEnd env isBin c).2 := by
  unfold decompressStreamEnd
  split
  · exact Work.refl c
  · cases hd : c.deflate with
    | none => exact Work.refl c
    | some df =>
        have ha : Resumes env c (c.alloc env).2 := alloc_resumes hr
        dsimp only
        split
        · exact ha.work
        · have hl := ha.trans (inflateLoop_resumes ⟨.inflateEnd, .syncFlush, true, true⟩ isBin rfl
            (inflateFuel env.zlib df.inflate deflateTail) df.inflate deflateTail _
            (ha.work.wf hw) ha.ready)
          split
          · exact hl.work
          · have hwl := hl.work.wf hw
            generalize (inflateLoop env _ _ _ _ _ _).2.2 = c' at hl hwl ⊢
            split
            · have hm := hl.work.trans (work_msg hwl { c'.msg with finSent := true })
              have hsend := hm.trans (message_work .inflateEnd [] isBin true 0 _ hl.ready)
              exact hsend.trans (inflateRest_work (hsend.wf hw))
            · exact hl.work.trans (inflateRest_work hwl)

theorem decompressOneshot_work (data : Bytes) (isBin : Bool) (c : Conn σ δ) (hw : Wf env c)
    (hr : Ready c.log) : Work env c (decompressOneshot env data isBin c).2 := by
  unfold decompressOneshot
  split
  · exact Work.refl c
  · cases hd : c.deflate with
    | none => exact Work.refl c
    | some df =>
        have ha : Resumes env c (c.alloc env).2 := alloc_resumes hr
        dsimp only
        split
        · exact ha.work
        · have ha' := ha.trans (alloc_resumes ha.ready)
          split
          · exact ha'.work
          · have hl := ha'.trans (inflateLoop_resumes ⟨.inflateOneshot, .syncFlush, true, true⟩ isBin
              rfl (inflateFuel env.zlib df.inflate (availIn (data ++ deflateTail))) df.inflate
              (availIn (data ++ deflateTail)) _ (ha'.work.wf hw) ha'.ready)
            split
            · exact hl.work
            · have hsend := hl.work.trans (message_work .inflateOneshot [] isBin true 0 _ hl.ready)
              exact hsend.trans (inflateRest_work (hsend.wf hw))

theorem msgEnd_work (isBin : Bool) (c : Conn σ δ) (hw : Wf env c)
    (hr : Ready c.log ∨ c.msg.compressed = false ∧ c.msg.finSent = true) :
    Work env c (msgEnd env isBin c) := by
  unfold msgEnd
  extract_lets _ _ c'
  have hc' : Work env c c' := by
    simp only [c']
    split
    · exact Work.refl c
    · split
      · rename_i hcomp
        rcases hr with hr | ⟨hr, -⟩
        · exact decompressStreamEnd_work isBin c hw hr
        · cases hr.symm.trans hcomp
      · split
        · rename_i hsend
          rcases hr with hr | ⟨-, hr⟩
          · have hm : Work env c _ := message_work .msgEnd [] isBin true c.msg.total c hr
            exact hm.trans (work_msg (hm.wf hw) _)
          · simp [hr] at hsend
        · exact Work.refl c
  exact hc'.trans (work_quiet (hc'.wf hw) ⟨rfl, rfl, rfl, rfl, rfl, rfl, id⟩ le_rfl (Nat.zero_le _) rfl)

-- ---- streamed frames ----

theorem streamChunks_stop (fuel : Nat) (c : Conn σ δ) (h : c.recv = [] ∨ c.streamRemaining = 0) :
    streamChunks env fuel c = (true, c) := by
  cases fuel with
  | zero => rfl
  | succ fuel =>
      unfold streamChunks
      rw [if_pos h]

theorem unmask_length (mask : Bool) (key : MaskKey) (off : Nat) (b : Bytes) :
    (if mask then applyMaskOffset key off b else b).length = b.length := by
  split
  · exact applyMaskOffset_length key off b
  · rfl

theorem streamChunks_compressed (fuel : Nat) (c : Conn σ δ) (hw : Wf env c) (hr : Ready c.log)
    (hcomp : c.msg.compressed = true) :
    Acts env c (streamChunks env fuel c).2 ∧ Ready (streamChunks env fuel c).2.log := by
  induction fuel generalizing c with
  | zero => exact ⟨.refl, hr⟩
  | succ fuel ih =>
      unfold streamChunks
      split
      · exact ⟨.refl, hr⟩
      split
      · exact ⟨.refl, hr⟩
      extract_lets chunk last data c₁ advance
      have hlen : (data ++ c.recv.drop chunk).length = c.recv.length := by
        rw [List.length_append, unmask_length, ← List.length_append, List.take_append_drop]
      have h₁ : Acts env c c₁ := acts_quiet hw ⟨rfl, rfl, rfl, rfl, rfl, rfl, id⟩ hlen.le le_rfl
      have hw₁ := h₁.wf hw
      rw [if_pos (show c₁.msg.compressed = true from hcomp)]
      have hd := decompressStreamChunk_resumes data c₁.isBin c₁ hw₁ hr
      dsimp only
      split
      · exact ⟨h₁.trans hd.work.1, hd.ready⟩
      · generalize (decompressStreamChunk env data c₁.isBin c₁).2 = c₂ at hd ⊢
        have hw₂ := hd.work.wf hw₁
        have h₂ : Acts env c₂ (advance c₂) :=
          acts_quiet hw₂ ⟨rfl, rfl, rfl, rfl, rfl, rfl, id⟩ (by simp [advance]) le_rfl
        obtain ⟨h₃, hr₃⟩ := ih (advance c₂) (h₂.wf hw₂) hd.ready (hd.msg ▸ hcomp)
        exact ⟨((h₁.trans hd.work.1).trans h₂).trans h₃, hr₃⟩

-- What streaming leaves behind: no delivery follows unless it may.
def Settled (c : Conn σ δ) : Prop :=
  Ready c.log ∨ c.destroyed = true ∨ c.recv = [] ∨ c.streamRemaining = 0

-- The buffer never holds more than one chunk, so the loop turns once.
theorem streamChunks_plain (fuel : Nat) (c : Conn σ δ) (hw : Wf env c) (hr : Ready c.log)
    (hcomp : c.msg.compressed = false) :
    Acts env c (streamChunks env fuel c).2 ∧ Settled (streamChunks env fuel c).2 ∧
      ((streamChunks env fuel c).1 = true → (streamChunks env fuel c).2.streamRemaining = 0 →
        (streamChunks env fuel c).2.streamFin = true →
        Ready (streamChunks env fuel c).2.log ∨
          (streamChunks env fuel c).2.msg.compressed = false ∧
            (streamChunks env fuel c).2.msg.finSent = true) := by
  cases fuel with
  | zero => exact ⟨.refl, .inl hr, fun _ _ _ => .inl hr⟩
  | succ fuel =>
      unfold streamChunks
      split
      · exact ⟨.refl, .inl hr, fun _ _ _ => .inl hr⟩
      rename_i hmore
      split
      · rename_i hd
        exact ⟨.refl, .inr (.inl hd), fun h => by cases h⟩
      extract_lets chunk last data c₁ advance m m' c₂
      have hchunk : chunk = c.recv.length ∨ chunk = c.streamRemaining := by
        have := hw.recv_le
        simp only [chunk]
        omega
      have hlen : (data ++ c.recv.drop chunk).length = c.recv.length := by
        rw [List.length_append, unmask_length, ← List.length_append, List.take_append_drop]
      have h₁ : Acts env c c₁ := acts_quiet hw ⟨rfl, rfl, rfl, rfl, rfl, rfl, id⟩ hlen.le le_rfl
      have hw₁ := h₁.wf hw
      rw [if_neg (show ¬ c₁.msg.compressed = true by simp [c₁, hcomp])]
      have hsame : SameRx c₁ m := message_sameRx env .streamConsume data c₁.isBin last _ c₁
      -- the message state after the chunk
      have hturn : Work env c₁ c₂ ∧ c₂.recv = c₁.recv ∧ c₂.streamFin = c.streamFin ∧
          c₂.msg.compressed = false ∧
          (Ready c₂.log ∨ (last = true → c₂.msg.finSent = true)) := by
        simp only [c₂]
        split
        · have hm : Work env c₁ _ := message_work .streamConsume data c₁.isBin last
            (if last = true then c₁.msg.total else 0) c₁ hr
          split
          · exact ⟨hm.trans (work_msg (hm.wf hw₁) _), hsame.recv, hsame.fin,
              (congrArg MsgState.compressed hsame.msg).trans hcomp, .inr fun _ => rfl⟩
          · rename_i hlast
            exact ⟨hm, hsame.recv, hsame.fin, (congrArg MsgState.compressed hsame.msg).trans hcomp,
              .inr fun h => absurd h hlast⟩
        · exact ⟨Work.refl c₁, rfl, rfl, hcomp, .inl hr⟩
      obtain ⟨hwork, hrecv, hfin, hcomp₂, hnext⟩ := hturn
      have h₂ := h₁.trans hwork.1
      split
      · rename_i hd
        exact ⟨h₂, .inr (.inl hd), fun h => by cases h⟩
      have hrem : c₂.streamRemaining = c.streamRemaining := hwork.2
      have h₃ : Acts env c₂ (advance c₂) :=
        acts_quiet (hwork.wf hw₁) ⟨rfl, rfl, rfl, rfl, rfl, rfl, id⟩ (by simp [advance]) le_rfl
      have hstop : (advance c₂).recv = [] ∨ (advance c₂).streamRemaining = 0 := by
        simp only [advance, hrecv, hrem]
        rcases hchunk with h | h
        · left
          rw [List.drop_eq_nil_iff, h]
          exact hlen.le
        · right
          omega
      rw [streamChunks_stop fuel (advance c₂) hstop]
      refine ⟨h₂.trans h₃, .inr (.inr hstop), fun _ hzero hf => ?_⟩
      rcases hnext with hr₂ | hlast
      · exact .inl hr₂
      · refine .inr ⟨hcomp₂, hlast ?_⟩
        simp only [advance, hrem, hfin] at hzero hf
        have hle : chunk ≤ c.streamRemaining := by simp only [chunk]; omega
        have heq : chunk = c.streamRemaining := by omega
        simp [last, heq, hf]

theorem msgEnd_fields (isBin : Bool) (c : Conn σ δ) (hw : Wf env c)
    (hr : Ready c.log ∨ c.msg.compressed = false ∧ c.msg.finSent = true)
    (h : c.streamRemaining = 0) : Settled (msgEnd env isBin c) :=
  .inr (.inr (.inr ((msgEnd_work isBin c hw hr).2.trans h)))

theorem streamConsume_acts (c : Conn σ δ) (hw : Wf env c) (hr : Ready c.log) :
    Acts env c (streamConsume env c) ∧ Settled (streamConsume env c) := by
  unfold streamConsume
  dsimp only
  have hchunks : Acts env c (streamChunks env c.recv.length c).2 ∧
      Settled (streamChunks env c.recv.length c).2 ∧
      ((streamChunks env c.recv.length c).1 = true →
        (streamChunks env c.recv.length c).2.streamRemaining = 0 →
        (streamChunks env c.recv.length c).2.streamFin = true →
        Ready (streamChunks env c.recv.length c).2.log ∨
          (streamChunks env c.recv.length c).2.msg.compressed = false ∧
            (streamChunks env c.recv.length c).2.msg.finSent = true) := by
    cases hcomp : c.msg.compressed with
    | true =>
        obtain ⟨ha, hready⟩ := streamChunks_compressed c.recv.length c hw hr hcomp
        exact ⟨ha, .inl hready, fun _ _ _ => .inl hready⟩
    | false => exact streamChunks_plain c.recv.length c hw hr hcomp
  generalize streamChunks env c.recv.length c = r at hchunks ⊢
  obtain ⟨ha, hs, hend⟩ := hchunks
  split
  · exact ⟨ha, hs⟩
  · rename_i hdone
    split
    · rename_i hlast
      have hready := hend (by simpa using hdone) hlast.1 hlast.2
      exact ⟨ha.trans (msgEnd_work _ _ (ha.wf hw) hready).1,
        msgEnd_fields _ _ (ha.wf hw) hready hlast.1⟩
    · exact ⟨ha, hs⟩

-- ---- the fragment buffer ----

theorem fragAppend_work (data : Bytes) (c : Conn σ δ) (hw : Wf env c) (hr : Ready c.log) :
    Work env c (fragAppend env data c).2 ∧ Ready (fragAppend env data c).2.log := by
  unfold fragAppend
  split
  · exact ⟨Work.refl c, hr⟩
  split
  · exact ⟨Work.refl c, hr⟩
  rename_i hfit
  extract_lets c₁
  have h₁ : Resumes env c c₁ := by
    simp only [c₁]
    split
    · split
      · exact decompressStreamChunk_resumes c.frag c.isBin c hw hr
      · exact message_resumes _ _ _ _ _ c rfl hr
    · exact Resumes.refl hr
  have hw₁ := h₁.work.wf hw
  have hdone : ∀ c' : Conn σ δ, Resumes env c c' → c'.frag.length + data.length ≤ env.recvCap →
      Work env c { c' with
        msg := { c'.msg with total := wrap64 (c'.msg.total + data.length) }
        frag := c'.frag ++ data } := by
    intro c' h' hlen
    refine h'.work.trans ⟨.single (Act.quiet ⟨rfl, rfl, rfl, rfl, rfl, rfl, id⟩ ?_ ?_), rfl⟩
    · exact (h'.work.wf hw).recv_le
    · simpa using hlen
  by_cases hover : c.frag.length + data.length > env.recvCap
  · simp only [if_pos hover]
    split
    · exact ⟨h₁.work, h₁.ready⟩
    · have hclear : Work env c { c₁ with frag := [] } :=
        h₁.work.trans (work_quiet hw₁ ⟨rfl, rfl, rfl, rfl, rfl, rfl, id⟩ le_rfl (Nat.zero_le _) rfl)
      refine ⟨hclear.trans ⟨.single (Act.quiet ⟨rfl, rfl, rfl, rfl, rfl, rfl, id⟩ ?_ ?_), rfl⟩, h₁.ready⟩
      · exact hw₁.recv_le
      · simpa using hfit
  · simp only [if_neg hover]
    exact ⟨hdone c (Resumes.refl hr) (by omega), hr⟩

theorem fragBlocks_work (fin : Bool) (fuel : Nat) (c : Conn σ δ) (hw : Wf env c)
    (hr : Ready c.log) (hcap : fuel ≠ 0 → 0 < env.recvCap) :
    Work env c (fragBlocks env fin fuel c).2 ∧
      ((fragBlocks env fin fuel c).1 = false →
        Ready (fragBlocks env fin fuel c).2.log ∨
          (fragBlocks env fin fuel c).2.msg.compressed = false ∧
          (fragBlocks env fin fuel c).2.msg.finSent = true ∧
          (fragBlocks env fin fuel c).2.frag = []) := by
  induction fuel generalizing c with
  | zero => exact ⟨Work.refl c, fun _ => .inl hr⟩
  | succ fuel ih =>
      unfold fragBlocks
      split
      · rename_i hfull
        extract_lets last _ c₁ block c₂
        have hcap' := hcap (Nat.succ_ne_zero fuel)
        have hlen : c.frag.length = env.recvCap := le_antisymm hw.frag_le hfull.1
        have h₁ : Work env c c₁ := by
          simp only [c₁]
          split
          · exact work_msg hw _
          · exact Work.refl c
        have hw₁ := h₁.wf hw
        have hr₁ : Ready c₁.log := by
          simp only [c₁]
          split <;> exact hr
        have hcomp₁ : c₁.msg.compressed = c.msg.compressed := by
          simp only [c₁]
          split <;> rfl
        have hfrag₁ : c₁.frag = c.frag := by
          simp only [c₁]
          split <;> rfl
        cases hcomp : c.msg.compressed with
        | true =>
            have hd : Resumes env c₁ c₂ := by
              simp only [c₂, hcomp₁, hcomp, if_true]
              exact decompressStreamChunk_resumes block c₁.isBin c₁ hw₁ hr₁
            have hw₂ := hd.work.wf hw₁
            split
            · exact ⟨h₁.trans hd.work, fun h => by cases h⟩
            · have hdrop := work_frag hw₂ env.recvCap
              obtain ⟨hrest, hpost⟩ := ih _ (hdrop.wf hw₂) hd.ready fun _ => hcap'
              exact ⟨((h₁.trans hd.work).trans hdrop).trans hrest, hpost⟩
        | false =>
            -- the only block that is full and not compressed is the last one
            have hfin : fin = true := by
              rcases hfull.2 with h | h | h
              · exact h
              · omega
              · cases hcomp.symm.trans h
            have hlast : last = true := by simp [last, hfin, hlen]
            have hsent : c₁.msg.finSent = true := by simp [c₁, hlast]
            have hm : Work env c₁ c₂ ∧ SameRx c₁ c₂ := by
              simp only [c₂, hcomp₁, hcomp, Bool.false_eq_true, if_false]
              exact ⟨message_work _ _ _ _ _ c₁ hr₁, message_sameRx env _ _ _ _ _ c₁⟩
            have hw₂ := hm.1.wf hw₁
            split
            · exact ⟨h₁.trans hm.1, fun h => by cases h⟩
            · have hdrop := work_frag hw₂ env.recvCap
              have hempty : c₂.frag.drop env.recvCap = [] := by
                rw [hm.2.frag, hfrag₁, List.drop_eq_nil_iff]
                exact hlen.le
              have hstop : fragBlocks env fin fuel { c₂ with frag := c₂.frag.drop env.recvCap } =
                  (false, { c₂ with frag := c₂.frag.drop env.recvCap }) := by
                cases fuel with
                | zero => rfl
                | succ fuel =>
                    unfold fragBlocks
                    rw [if_neg]
                    simp only [hempty, List.length_nil]
                    omega
              rw [hstop]
              refine ⟨(h₁.trans hm.1).trans hdrop, fun _ => .inr ⟨?_, ?_, hempty⟩⟩
              · exact (congrArg MsgState.compressed hm.2.msg).trans (hcomp₁.trans hcomp)
              · exact (congrArg MsgState.finSent hm.2.msg).trans hsent
      · exact ⟨Work.refl c, fun _ => .inl hr⟩

theorem work_clear {c : Conn σ δ} (hw : Wf env c) : Work env c { c with frag := [] } :=
  work_quiet hw ⟨rfl, rfl, rfl, rfl, rfl, rfl, id⟩ le_rfl (Nat.zero_le _) rfl

theorem fragRest_work (isBin : Bool) (c : Conn σ δ) (hw : Wf env c)
    (hr : Ready c.log ∨ c.msg.compressed = false ∧ c.msg.finSent = true ∧ c.frag = []) :
    Work env c (fragRest env isBin c) := by
  unfold fragRest
  split
  · exact msgEnd_work _ _ hw (hr.imp id fun h => ⟨h.1, h.2.1⟩)
  rename_i hfrag
  have hr₁ : Ready c.log := hr.resolve_right fun h => hfrag h.2.2
  split
  · have hd := decompressStreamChunk_resumes c.frag isBin c hw hr₁
    dsimp only
    split
    · exact hd.work
    · have hclear := work_clear (hd.work.wf hw)
      refine (hd.work.trans hclear).trans (msgEnd_work _ _ ?_ (.inl hd.ready))
      exact hclear.wf (hd.work.wf hw)
  rename_i hcomp
  split
  · exact Moves.work (sendCloseCode_moves (notify_moves env) 1007 c hr₁.1)
  · have h₂ := work_msg hw { c.msg with finSent := true }
    have h₃ : Work env _ _ := message_work .fragFlush c.frag isBin true c.msg.total
      { c with msg := { c.msg with finSent := true } } hr₁
    have hsame := message_sameRx env .fragFlush c.frag isBin true c.msg.total
      { c with msg := { c.msg with finSent := true } }
    dsimp only
    generalize message env _ _ _ _ _ _ = c₃ at h₃ hsame ⊢
    have hsum := h₂.trans h₃
    split
    · exact hsum
    · refine (hsum.trans (work_clear (hsum.wf hw))).trans (msgEnd_work _ _ ?_ (.inr ⟨?_, ?_⟩))
      · exact (hsum.trans (work_clear (hsum.wf hw))).wf hw
      · exact (congrArg MsgState.compressed hsame.msg).trans (by simpa using hcomp)
      · exact congrArg MsgState.finSent hsame.msg

theorem fragFlush_work (fin : Bool) (c : Conn σ δ) (hw : Wf env c) (hr : Ready c.log) :
    Work env c (fragFlush env fin c) := by
  unfold fragFlush
  dsimp only
  have hcap : c.frag.length ≠ 0 → 0 < env.recvCap := fun h => by
    have := hw.frag_le
    omega
  have h₀ : Work env c (c.emit (.fragFlush c.msg.compressed fin c.frag.length)) :=
    work_note c _ rfl
  have hr₀ := hr.append [.fragFlush c.msg.compressed fin c.frag.length] (by simp [Event.terminal])
  obtain ⟨hb, hpost⟩ := fragBlocks_work fin c.frag.length _ (h₀.wf hw) hr₀ hcap
  split
  · exact h₀.trans hb
  · rename_i hgo
    exact (h₀.trans hb).trans (fragRest_work _ _ (hb.wf (h₀.wf hw))
      (hpost (by simpa using fun h => hgo (.inl h))))

theorem fragFlushTail_work (c : Conn σ δ) (hw : Wf env c) (hr : Ready c.log) :
    Work env c (fragFlushTail env c) ∧ Ready (fragFlushTail env c).log := by
  unfold fragFlushTail
  split
  · exact ⟨Work.refl c, hr⟩
  · extract_lets c₁
    have h₁ : Resumes env c c₁ := by
      simp only [c₁]
      split
      · exact decompressStreamChunk_resumes _ _ c hw hr
      · split
        · exact message_resumes _ _ _ _ _ c rfl hr
        · exact Resumes.refl hr
    exact ⟨h₁.work.trans (work_clear (h₁.work.wf hw)), h₁.ready⟩

-- ---- frames ----

variable (env) in
-- A data frame is noted before it is handled.
theorem dataFrame_work (c : Conn σ δ) (opcode len : Nat) (fin compressed : Bool) (hr : Ready c.log) :
    Work env c (c.emit (.dataFrame opcode len fin compressed)) ∧
      Ready (c.emit (.dataFrame opcode len fin compressed)).log :=
  ⟨work_note c _ rfl, hr.append _ (by simp [Event.terminal])⟩

theorem handleSingle_work (hdr : FrameHeader) (payload : Bytes) (c : Conn σ δ) (hr : Ready c.log) :
    Work env c (handleSingle env hdr payload c).2 := by
  unfold handleSingle
  split
  · exact Moves.work (sendCloseCode_moves (notify_moves env) 1007 c hr.1)
  · split
    · exact message_work _ _ _ _ _ c hr
    · exact Work.refl c

theorem handleTextBinary_work (hdr : FrameHeader) (payload : Bytes) (c : Conn σ δ) (hw : Wf env c)
    (hr : Ready c.log) : Work env c (handleTextBinary env hdr payload c).2 := by
  obtain ⟨h₀, hr₀⟩ := dataFrame_work env c hdr.opcode hdr.payloadLen hdr.fin
    c.msg.compressed hr
  unfold handleTextBinary
  split
  · exact Work.refl c
  split
  · exact h₀.trans (handleSingle_work hdr payload _ hr₀)
  · extract_lets c₀ _ c₁
    have h₁ : Work env c c₁ := h₀.trans (work_msg (h₀.wf hw) _)
    obtain ⟨ha, hra⟩ := fragAppend_work payload c₁ (h₁.wf hw) hr₀
    dsimp only
    split
    · exact h₁.trans ha
    · have hsum := h₁.trans ha
      exact hsum.trans (fragFlush_work false _ (hsum.wf hw) hra)

theorem handleCont_work (hdr : FrameHeader) (payload : Bytes) (c : Conn σ δ) (hw : Wf env c)
    (hr : Ready c.log) : Work env c (handleCont env hdr payload c).2 := by
  obtain ⟨h₀, hr₀⟩ := dataFrame_work env c hdr.opcode hdr.payloadLen hdr.fin
    c.msg.compressed hr
  unfold handleCont
  split
  · exact Work.refl c
  · obtain ⟨ha, hra⟩ := fragAppend_work payload _ (h₀.wf hw) hr₀
    have hsum := h₀.trans ha
    dsimp only
    split
    · exact hsum
    · exact hsum.trans (fragFlush_work hdr.fin _ (hsum.wf hw) hra)

theorem handlePing_work (payload : Bytes) (c : Conn σ δ) (he : Entered c.log) :
    Work env c (handlePing env payload c).2 :=
  Moves.work (sendFrameRaw_moves (notify_moves env) Opcode.pong (.bytes payload) false c
    fun _ _ => he)

theorem handlePong_work (payload : Bytes) (c : Conn σ δ) (hr : Ready c.log) :
    Work env c (handlePong env payload c).2 := by
  unfold handlePong
  cases hp : env.onPong with
  | none => exact Work.refl c
  | some cb =>
      have hd : Work env c (c.emit (.onPong payload)) := ⟨.single (Act.deliver c _ rfl hr), rfl⟩
      exact hd.trans (Moves.work (callback_moves env cb _ c))

theorem acceptClose_work (payload : Bytes) (code : Nat) (reason : Bytes) (c : Conn σ δ)
    (he : Entered c.log) : Work env c (acceptClose env payload code reason c) := by
  unfold acceptClose
  split
  · exact Moves.work (enterClosed_moves (notify_moves env) code reason c)
  · exact Moves.work ((sendFrameRaw_moves (notify_moves env) Opcode.close (.bytes payload) false c
      fun _ _ => he).trans (enterClosed_moves (notify_moves env) code reason _))

theorem handleClose_work (payload : Bytes) (c : Conn σ δ) (he : Entered c.log) :
    Work env c (handleClose env payload c).2 := by
  unfold handleClose
  split
  · dsimp only
    split
    · exact Work.refl c
    · split
      · exact Moves.work (sendCloseCode_moves (notify_moves env) 1007 c he)
      · exact acceptClose_work payload _ _ c he
  · exact acceptClose_work payload _ _ c he

theorem unmasked_length (buf payload : Bytes) (size len : Nat)
    (hp : payload.length = ((buf.drop size).take len).length) :
    (buf.take size ++ payload ++ buf.drop (size + len)).length ≤ buf.length := by
  simp only [List.length_append, List.length_take, List.length_drop] at hp ⊢
  omega

theorem dispatch_work (hdr : FrameHeader) (payload : Bytes) (c : Conn σ δ) (hw : Wf env c)
    (hr : Ready c.log) {r : Int × Conn σ δ} (h : dispatch env hdr payload c = some r) :
    Work env c r.2 := by
  unfold dispatch at h
  split at h
  · cases h
    exact handleTextBinary_work hdr payload c hw hr
  split at h
  · cases h
    exact handleCont_work hdr payload c hw hr
  split at h
  · cases h
    exact handlePing_work payload c hr.1
  split at h
  · cases h
    exact handlePong_work payload c hr
  · cases h

theorem consumeFrame_work (hdr : FrameHeader) (size : Nat) {c c' : Conn σ δ} (hw : Wf env c)
    (h : Work env c c') : Work env c (consumeFrame hdr size c') :=
  h.trans (work_quiet (h.wf hw) ⟨rfl, rfl, rfl, rfl, rfl, rfl, id⟩ (by simp [consumeFrame]) le_rfl rfl)

theorem framePayload_length (hdr : FrameHeader) (size : Nat) (c : Conn σ δ) :
    (framePayload hdr size c).length = ((c.recv.drop size).take hdr.payloadLen).length :=
  unmask_length hdr.mask hdr.maskKey 0 _

theorem unmaskFrame_work (hdr : FrameHeader) (size : Nat) (c : Conn σ δ) (hw : Wf env c) :
    Work env c (unmaskFrame hdr size c) :=
  work_quiet hw ⟨rfl, rfl, rfl, rfl, rfl, rfl, id⟩
    (unmasked_length _ _ _ _ (framePayload_length hdr size c)) le_rfl rfl

theorem noteCompressed_work (hdr : FrameHeader) (c : Conn σ δ) (hw : Wf env c) :
    Work env c (noteCompressed hdr c) ∧ (noteCompressed hdr c).log = c.log := by
  unfold noteCompressed
  split
  · exact ⟨work_msg hw _, rfl⟩
  · exact ⟨Work.refl c, rfl⟩

theorem oneshotFrame_work (hdr : FrameHeader) (size : Nat) (payload : Bytes) (c : Conn σ δ)
    (hw : Wf env c) (hr : Ready c.log) : Work env c (oneshotFrame env hdr size payload c).2 := by
  unfold oneshotFrame
  split
  · exact Work.refl c
  · obtain ⟨h₀, hr₀⟩ := dataFrame_work env c hdr.opcode hdr.payloadLen hdr.fin true hr
    have hd := h₀.trans (decompressOneshot_work payload (hdr.opcode == Opcode.binary) _ (h₀.wf hw) hr₀)
    dsimp only
    split
    · exact hd
    · split
      · exact hd
      · exact consumeFrame_work hdr size hw hd

theorem plainFrame_work (hdr : FrameHeader) (size : Nat) (payload : Bytes) (c : Conn σ δ)
    (hw : Wf env c) (hr : Ready c.log) : Work env c (plainFrame env hdr size payload c).2 := by
  unfold plainFrame
  split
  · exact Work.refl c
  split
  · exact Work.refl c
  split
  · exact handleClose_work payload c hr.1
  split
  · exact Work.refl c
  · rename_i r c' hsome
    have hc' := dispatch_work hdr payload c hw hr hsome
    split
    · exact hc'
    · split
      · exact hc'
      · exact consumeFrame_work hdr size hw hc'

theorem wholeFrame_work (hdr : FrameHeader) (size : Nat) (c : Conn σ δ) (hw : Wf env c)
    (hr : Ready c.log) : Work env c (wholeFrame env hdr size c).2 := by
  have h₁ : Work env c _ := unmaskFrame_work hdr size c hw
  have h₂ := noteCompressed_work hdr _ (h₁.wf hw)
  have hlog : (noteCompressed hdr (unmaskFrame hdr size c)).log = c.log := h₂.2
  unfold wholeFrame
  dsimp only
  split
  · exact Work.refl c
  split
  · exact h₁
  split
  · exact h₁
  split
  · exact h₁
  split
  · exact h₁
  split
  · exact h₁.trans (oneshotFrame_work hdr size _ _ (h₁.wf hw) hr)
  · have hsum := h₁.trans h₂.1
    exact hsum.trans (plainFrame_work hdr size _ _ (hsum.wf hw) (hlog ▸ hr))

theorem joinStream_work (hdr : FrameHeader) (c : Conn σ δ) (hw : Wf env c) (hr : Ready c.log) :
    Work env c (joinStream env hdr c).2 ∧
      ((joinStream env hdr c).1 = true → (joinStream env hdr c).2.destroyed = true) ∧
      Ready (joinStream env hdr c).2.log := by
  unfold joinStream
  split
  · obtain ⟨hf, hrf⟩ := fragFlushTail_work c hw hr
    dsimp only
    split
    · rename_i hd
      exact ⟨hf, fun _ => hd, hrf⟩
    · exact ⟨hf.trans (work_msg (hf.wf hw) _), fun h => (by cases h), hrf⟩
  · exact ⟨Work.refl c, fun h => (by cases h), hr⟩
  · exact ⟨work_msg hw _, fun h => (by cases h), hr⟩

theorem beginStream_acts (hdr : FrameHeader) (size : Nat) (c : Conn σ δ) (hw : Wf env c)
    (hr : Ready c.log) :
    Acts env c (beginStream env hdr size c).2 ∧
      ((beginStream env hdr size c).2 = c ∨ Settled (beginStream env hdr size c).2) := by
  unfold beginStream
  split_ifs
  iterate 6 exact ⟨.refl, .inl rfl⟩
  dsimp only
  obtain ⟨h₀, hr₀⟩ := dataFrame_work env c hdr.opcode hdr.payloadLen hdr.fin
    (c.msg.compressed || hdr.rsv1) hr
  generalize c.emit (.dataFrame hdr.opcode hdr.payloadLen hdr.fin
    (c.msg.compressed || hdr.rsv1)) = c₀ at *
  have h₁ : Work env c (c₀.emit (.streamFrame c₀.msg.mode c₀.frag.length)) :=
    h₀.trans (work_note c₀ _ rfl)
  have hr₁ : Ready (c₀.emit (.streamFrame c₀.msg.mode c₀.frag.length)).log :=
    hr₀.append _ (by simp [Event.terminal])
  obtain ⟨hj, hstop, hrj⟩ := joinStream_work hdr _ (h₁.wf hw) hr₁
  have hj := h₁.trans hj
  split
  · rename_i hs
    exact ⟨hj.1, .inr (.inr (.inl (hstop hs)))⟩
  · have hq : Acts env _ (armStream hdr size
        (joinStream env hdr (c₀.emit (.streamFrame c₀.msg.mode c₀.frag.length))).2) :=
      acts_quiet (hj.wf hw) ⟨rfl, rfl, rfl, rfl, rfl, rfl, id⟩ (by simp [armStream]) le_rfl
    obtain ⟨hs, hsettled⟩ := streamConsume_acts _ (hq.wf (hj.wf hw)) hrj
    exact ⟨(hj.1.trans hq).trans hs, .inr hsettled⟩

theorem processFrames_acts (fuel : Nat) (c : Conn σ δ) (hw : Wf env c) (he : Entered c.log) :
    Acts env c (processFrames env fuel c).2 ∧
      (c.streamRemaining = 0 → Settled (processFrames env fuel c).2) := by
  have hstay : ∀ c : Conn σ δ, c.streamRemaining = 0 → Settled c := fun c h => .inr (.inr (.inr h))
  induction fuel generalizing c with
  | zero => exact ⟨.refl, hstay c⟩
  | succ fuel ih =>
      unfold processFrames
      split
      · exact ⟨.refl, hstay c⟩
      rename_i hstate
      split
      · exact ⟨.refl, hstay c⟩
      rename_i hdestroyed
      have hg : c.gone = false := by
        simp only [not_or] at hstate
        simp [gone, hdestroyed, hstate.2]
      have hr := hw.ready hg he
      split
      · exact ⟨.refl, hstay c⟩
      · exact ⟨.refl, hstay c⟩
      · rename_i hdr size hlook
        obtain ⟨hb, hs⟩ := beginStream_acts hdr size c hw hr
        have hs : c.streamRemaining = 0 → Settled (beginStream env hdr size c).2 :=
          fun h => hs.elim (fun h' => hstay _ (by rw [h', h])) id
        split
        · rename_i err c' hbegin
          rw [hbegin] at hb hs
          exact ⟨hb, hs⟩
        · rename_i c' hbegin
          rw [hbegin] at hb hs
          exact ⟨hb, hs⟩
      · rename_i hdr size hlook
        have hf := wholeFrame_work hdr size c hw hr
        split
        · rename_i c' hframe
          rw [hframe] at hf
          obtain ⟨ha, hs⟩ := ih c' (hf.wf hw) (he.mono hf.1.log_grows)
          exact ⟨hf.1.trans ha, fun h => hs (hf.2.trans h)⟩
        · rename_i r c' hframe
          rw [hframe] at hf
          exact ⟨hf.1, fun h => hstay _ (hf.2.trans h)⟩

theorem runFrames_acts (c : Conn σ δ) (hw : Wf env c) (he : Entered c.log) :
    Acts env c (runFrames env c).2 ∧ (c.streamRemaining = 0 → Settled (runFrames env c).2) :=
  processFrames_acts c.recv.length c hw he

theorem streamConsume_settled (c : Conn σ δ) (hw : Wf env c) (hs : Settled c)
    (hrecv : c.recv ≠ []) (hrem : c.streamRemaining > 0) :
    Acts env c (streamConsume env c) ∧ Settled (streamConsume env c) := by
  rcases hs with hr | hd | h | h
  · exact streamConsume_acts c hw hr
  · have hstop : streamConsume env c = c := by
      have hlen : c.recv.length = c.recv.length - 1 + 1 := by
        have := List.length_pos_of_ne_nil hrecv
        omega
      unfold streamConsume
      rw [hlen]
      unfold streamChunks
      rw [if_neg (by simp only [hrecv, false_or]; omega), if_pos hd]
      rfl
    rw [hstop]
    exact ⟨.refl, .inr (.inl hd)⟩
  · exact absurd h hrecv
  · omega

theorem streamLoop_acts (fuel : Nat) (c : Conn σ δ) (hw : Wf env c) (he : Entered c.log)
    (hs : Settled c) : Acts env c (streamLoop env fuel c).2 := by
  induction fuel generalizing c with
  | zero => exact .refl
  | succ fuel ih =>
      unfold streamLoop
      split
      · exact .refl
      rename_i hrecv
      extract_lets prev c₁
      have h₁ : Acts env c c₁ ∧ Settled c₁ := by
        simp only [c₁]
        split
        · exact streamConsume_settled c hw hs hrecv ‹_›
        · exact ⟨.refl, hs⟩
      have hw₁ := h₁.1.wf hw
      have hframes : Acts env c₁ (if c₁.streamRemaining = 0 then runFrames env c₁ else (0, c₁)).2 ∧
          Settled (if c₁.streamRemaining = 0 then runFrames env c₁ else (0, c₁)).2 := by
        split
        · rename_i hzero
          obtain ⟨ha, hset⟩ := runFrames_acts c₁ hw₁ (he.mono h₁.1.log_grows)
          exact ⟨ha, hset hzero⟩
        · exact ⟨.refl, h₁.2⟩
      dsimp only
      generalize (if c₁.streamRemaining = 0 then runFrames env c₁ else (0, c₁)) = r at hframes ⊢
      have h₂ : Acts env c r.2 := h₁.1.trans hframes.1
      split
      · exact h₂
      · split
        · exact h₂
        · exact h₂.trans (ih r.2 (h₂.wf hw) (he.mono h₂.log_grows) hframes.2)

-- ws_frame_data once it has been entered.
theorem frameData_acts (c : Conn σ δ) (hw : Wf env (c.emit .frameData)) (hg : c.gone = false)
    (he : Entered (c.emit .frameData).log) : Acts env (c.emit .frameData) (frameData env c) := by
  have hready : Ready (c.emit .frameData).log := hw.ready hg he
  unfold frameData
  dsimp only
  have hbody : Acts env (c.emit .frameData)
      (if (c.emit .frameData).msg.mode = .stream then
        streamLoop env ((c.emit .frameData).recv.length + 1) (c.emit .frameData)
      else runFrames env (c.emit .frameData)).2 := by
    split
    · exact streamLoop_acts _ _ hw he (.inl hready)
    · exact (runFrames_acts _ hw he).1
  generalize (if (c.emit .frameData).msg.mode = .stream then
        streamLoop env ((c.emit .frameData).recv.length + 1) (c.emit .frameData)
      else runFrames env (c.emit .frameData)) = r at hbody ⊢
  split
  · exact hbody.trans (Moves.acts (fatal_moves (notify_moves env) _ r.2
      fun _ ho => (hbody.wf hw).opened ho))
  · exact hbody

end Sevent.Ws.Conn
