import Sevent.Decoder
import Sevent.Ws.Plain

-- The inflate loops over a zlib that keeps to its documentation.
namespace Sevent.Ws

variable {σ δ : Type}

open Conn

-- ---- zlib.h ----

-- A call of inflate that met no bad data: behind `h`, with `k` bytes given out before.
structure Turned (D : Decoder Byte Byte) (at_ : σ → Bytes → Nat → Prop) (h : Bytes) (k : Nat)
    (input : Bytes) (room : Nat) (r : InflateOut σ) : Prop where
  state : at_ r.state (h ++ input.take r.consumed) (k + r.out.length)
  out : r.out <+: (D.text (h ++ input.take r.consumed)).drop k
  -- it stops when the output is full, the input is empty or the stream is over
  all : r.out.length < room → k + r.out.length = (D.text (h ++ input.take r.consumed)).length ∧
    (r.consumed = input.length ∨ D.status (h ++ input.take r.consumed) = .final)
  ended : r.res = .streamEnd ↔ D.status (h ++ input.take r.consumed) = .final ∧
    k + r.out.length = (D.text (h ++ input.take r.consumed)).length
  stuck : r.res = .bufError → r.consumed = 0 ∧ r.out = []

-- Raw inflate. `at_ s h k`: since its last reset the stream has taken `h` and given out `k` bytes.
structure Zlib.Inflates (z : Zlib σ δ) (D : Decoder Byte Byte) (at_ : σ → Bytes → Nat → Prop) :
    Prop where
  init : ∀ {bits s}, z.inflateInit bits = some s → at_ s [] 0
  reset : ∀ s, at_ (z.inflateReset s) [] 0
  -- nothing is taken behind the end of the stream or behind bad data
  before : ∀ {s h k}, at_ s h k → D.status h ≠ .bad → ∀ input room flush, 0 < room →
    ∀ y, y <+: input.take (z.inflate s input room flush).consumed →
      y.length < (z.inflate s input room flush).consumed → D.status (h ++ y) = .going
  error : ∀ {s h k}, at_ s h k → D.status h ≠ .bad → ∀ input room flush, 0 < room →
    ((z.inflate s input room flush).res = .error ↔
      D.status (h ++ input.take (z.inflate s input room flush).consumed) = .bad)
  turn : ∀ {s h k}, at_ s h k → D.status h ≠ .bad → ∀ input room flush, 0 < room →
    D.status (h ++ input.take (z.inflate s input room flush).consumed) ≠ .bad →
      Turned D at_ h k input room (z.inflate s input room flush)

-- ---- what is heard meanwhile ----

namespace Conn

-- `data` has gone to on_message, and no fin.
def Told (c c' : Conn σ δ) (data : Bytes) : Prop :=
  ∀ n ≤ c.log.length, n ≤ c'.log.length ∧
    heard (c'.log.drop n) = ((heard (c.log.drop n)).1, (heard (c.log.drop n)).2 ++ data)

theorem Told.of_unheard {c c' : Conn σ δ} (h : Unheard c c') : Told c c' [] := by
  intro n hn
  obtain ⟨hle, heq⟩ := heard_unheard hn h
  exact ⟨hle, by rw [heq, List.append_nil]⟩

theorem Told.of_log {c c' : Conn σ δ} (h : c'.log = c.log) : Told c c' [] :=
  .of_unheard (Silent.of_log h).unheard

theorem Told.trans {a b c : Conn σ δ} {x y : Bytes} (h : Told a b x) (h' : Told b c y) :
    Told a c (x ++ y) := by
  intro n hn
  obtain ⟨hle, heq⟩ := h n hn
  obtain ⟨hle', heq'⟩ := h' n hle
  exact ⟨hle', by rw [heq', heq, List.append_assoc]⟩

section

variable {env : Env σ δ} (hg : env.Gentle) (hm : env.onMessage.isSome = true)

include hg hm

theorem message_told (site : Site) (data : Bytes) (isBin : Bool) (total : Nat) {c : Conn σ δ}
    (hd : c.destroyed = false) : Told c (message env site data isBin false total c) data :=
  fun _ hn => heard_message hg hm site data isBin false total hd hn

theorem message_inflater (site : Site) (data : Bytes) (isBin fin : Bool) (total : Nat) {c : Conn σ δ}
    (hd : c.destroyed = false) :
    (message env site data isBin fin total c).inflater = c.inflater :=
  (message_aside hg hm site data isBin fin total hd).rx.inflate

omit hg hm in
theorem setInflate_inflater (c : Conn σ δ) (s : σ) :
    (c.setInflate s).inflater = c.inflater.map fun p => (s, p.2) := by
  unfold setInflate inflater
  rw [Option.map_map, Option.map_map]
  rfl

-- What a turn of the loop has given out goes to on_message.
theorem turn_told (site : Site) (out : Bytes) (isBin : Bool) {c : Conn σ δ} (hd : c.destroyed = false)
    (s : σ) : ∃ c', (if out ≠ [] then message env site out isBin false 0 (c.setInflate s)
        else c.setInflate s) = c' ∧ c'.destroyed = false ∧ Told c c' out ∧
      c'.inflater = c.inflater.map fun p => (s, p.2) := by
  refine ⟨_, rfl, ?_⟩
  by_cases hout : out = []
  · subst hout
    rw [if_neg (by simp)]
    exact ⟨hd, .of_log rfl, setInflate_inflater c s⟩
  · rw [if_pos hout]
    have htold := message_told hg hm site out isBin 0 (c := c.setInflate s) hd
    refine ⟨(message_calm hg site out isBin false 0 (c := c.setInflate s) hd).destroyed, ?_, ?_⟩
    · exact fun n hn => htold n hn
    · rw [message_inflater hg hm site out isBin false 0 (c := c.setInflate s) hd, setInflate_inflater]

end

end Conn

-- ---- the loop ----

section

variable {env : Env σ δ} (hg : env.Gentle) (hm : env.onMessage.isSome = true)
variable {D : Decoder Byte Byte} {at_ : σ → Bytes → Nat → Prop}

-- What one call takes of an input that the decoder can read.
theorem Zlib.Inflates.taken {z : Zlib σ δ} (hz : z.Inflates D at_) {s : σ} {h x input : Bytes} {k : Nat}
    (hs : at_ s h k) (ht : D.Takes h x input) (room : Nat) (flush : Flush) (hroom : 0 < room) :
    (z.inflate s input room flush).consumed ≤ x.length ∧
      input.take (z.inflate s input room flush).consumed =
        x.take (z.inflate s input room flush).consumed ∧
      Turned D at_ h k input room (z.inflate s input room flush) ∧
      (z.inflate s input room flush).res ≠ .error := by
  have hstart : D.status h ≠ .bad := by simpa using ht.good List.nil_prefix
  have hle := z.consumed_le s input room flush
  have hbefore := hz.before hs hstart input room flush hroom
  have herror := hz.error hs hstart input room flush hroom
  have hturn := hz.turn hs hstart input room flush hroom
  generalize z.inflate s input room flush = r at *
  have hx : r.consumed ≤ x.length := by
    by_contra hlong
    have hp : x <+: input.take r.consumed :=
      List.prefix_of_prefix_length_le ht.part (List.take_prefix _ _)
        (by rw [List.length_take]; omega)
    rcases ht.stops with hst | ⟨-, rfl⟩
    · have hgo := hbefore x hp (by omega)
      rw [hst] at hgo
      cases hgo
    · omega
  have htake : input.take r.consumed = x.take r.consumed := by
    obtain ⟨t, rfl⟩ := ht.part
    rw [List.take_append_of_le_length hx]
  have hok : D.status (h ++ input.take r.consumed) ≠ .bad := by
    rw [htake]
    exact ht.good (List.take_prefix _ _)
  exact ⟨hx, htake, hturn hok, fun he => hok (herror.mp he)⟩

-- The text is given out in order.
theorem Turned.text {h input : Bytes} {k room : Nat} {r : InflateOut σ} (ht : Turned D at_ h k input room r)
    (y : Bytes) : (D.text (h ++ input.take r.consumed ++ y)).drop k =
      r.out ++ (D.text (h ++ input.take r.consumed ++ y)).drop (k + r.out.length) := by
  obtain ⟨t, hout⟩ := ht.out
  obtain ⟨u, htext⟩ := D.text_prefix (h ++ input.take r.consumed) y
  have hdrop : ((D.text (h ++ input.take r.consumed)) ++ u).drop k =
      r.out ++ (t ++ u.drop (k - (D.text (h ++ input.take r.consumed)).length)) := by
    rw [List.drop_append, ← hout, List.append_assoc]
  rw [← htext, hdrop, ← List.drop_drop, hdrop, List.drop_left]

include hg hm in
theorem Conn.inflateLoop_takes (hz : env.zlib.Inflates D at_) (l : InflateLoop) (isBin : Bool) (fuel : Nat)
    {s : σ} {h x input : Bytes} {k : Nat} (hs : at_ s h k) (ht : D.Takes h x input)
    (hend : D.status (h ++ x) = .final → l.acceptEnd = true ∧ l.drain = true)
    (hfuel : env.zlib.backlog s input + input.length < fuel) {c : Conn σ δ} (hd : c.destroyed = false) :
    ∃ s' c', inflateLoop env l isBin fuel s input c = (true, 0, c') ∧
      at_ s' (h ++ x) (D.text (h ++ x)).length ∧ c'.destroyed = false ∧
      Told c c' ((D.text (h ++ x)).drop k) ∧ c'.inflater = c.inflater.map fun p => (s', p.2) := by
  induction fuel generalizing s h x input k c with
  | zero => omega
  | succ fuel ih =>
      obtain ⟨hx, htake, hturn, hne⟩ := hz.taken hs ht decompBatch l.flush (by decide)
      have hout := env.zlib.out_le s input decompBatch l.flush
      have hback := env.zlib.backlog_le s input decompBatch l.flush
      have hle := env.zlib.consumed_le s input decompBatch l.flush
      unfold inflateLoop
      generalize env.zlib.inflate s input decompBatch l.flush = r at *
      dsimp only
      have hempty : r.consumed = input.length → input.drop r.consumed = [] := by
        intro hcons
        rw [hcons, List.drop_length]
      have hfinal : D.status (h ++ input.take r.consumed) = .final → r.consumed = x.length := by
        intro hst
        by_contra hlt
        rw [htake, ht.before _ (List.take_prefix _ _) (by rw [List.length_take]; omega)] at hst
        cases hst
      have hwhole : r.consumed = x.length → h ++ input.take r.consumed = h ++ x := by
        intro hlen
        rw [htake, hlen, List.take_length]
      have hstuck : ¬ (r.res = .bufError ∧ input.drop r.consumed ≠ []) := by
        rintro ⟨hres, hrest⟩
        obtain ⟨h0, hnil⟩ := hturn.stuck hres
        obtain ⟨hall, hcons | hst⟩ := hturn.all (by rw [hnil]; decide)
        · exact hrest (hempty hcons)
        · have := hturn.ended.mpr ⟨hst, hall⟩
          rw [hres] at this
          cases this
      have herror : ¬ (r.res = .error ∨ (r.res = .streamEnd ∧ !l.acceptEnd)) := by
        rintro (hres | ⟨hres, hacc⟩)
        · exact hne hres
        · have hst := (hturn.ended.mp hres).1
          rw [hwhole (hfinal hst)] at hst
          simp [(hend hst).1] at hacc
      rw [if_neg hstuck, if_neg herror]
      obtain ⟨c₂, hc₂, hd', htold, hinf⟩ := turn_told hg hm l.site r.out isBin hd r.state
      rw [hc₂, if_neg (by simp [hd'])]
      by_cases hstop : r.out.length < decompBatch ∧ (l.drain ∨ input.drop r.consumed = [])
      · rw [if_pos hstop]
        obtain ⟨hall, hcons⟩ := hturn.all hstop.1
        have hlen : r.consumed = x.length := by
          rcases hcons with hcons | hst
          · have := ht.part.length_le
            omega
          · exact hfinal hst
        have hstate := hturn.state
        rw [hwhole hlen] at hall hstate
        refine ⟨r.state, c₂, rfl, hall ▸ hstate, hd', ?_, hinf⟩
        have htext := hturn.text []
        rw [List.append_nil, hwhole hlen, hall, List.drop_length, List.append_nil] at htext
        exact htext.symm ▸ htold
      · rw [if_neg hstop]
        have hfull : r.out.length = decompBatch := by
          by_contra hshort
          have hlt : r.out.length < decompBatch := by omega
          obtain ⟨hdrain, hrest⟩ := not_or.mp fun hor => hstop ⟨hlt, hor⟩
          obtain ⟨-, hcons | hst⟩ := hturn.all hlt
          · exact hrest (hempty hcons)
          · have hst' := hst
            rw [hwhole (hfinal hst)] at hst'
            exact hdrain (hend hst').2
        have hsplit : x.take r.consumed ++ x.drop r.consumed = x := List.take_append_drop _ _
        have hnext : D.Takes (h ++ input.take r.consumed) (x.drop r.consumed)
            (input.drop r.consumed) := by
          refine ⟨?_, ?_, ?_⟩
          · obtain ⟨t, rfl⟩ := ht.part
            exact ⟨t, by rw [List.drop_append_of_le_length hx]⟩
          · intro y hy hlt
            rw [htake, List.append_assoc]
            refine ht.before _ ?_ ?_
            · obtain ⟨t, hy⟩ := hy
              exact ⟨t, by rw [List.append_assoc, hy, hsplit]⟩
            · rw [List.length_append, List.length_take]
              rw [List.length_drop] at hlt
              omega
          · rw [htake, List.append_assoc, hsplit]
            exact ht.stops.imp id fun hgo => ⟨hgo.1, by rw [hgo.2]⟩
        have hwhole' : h ++ input.take r.consumed ++ x.drop r.consumed = h ++ x := by
          rw [htake, List.append_assoc, hsplit]
        have hdec : 0 < decompBatch := by decide
        obtain ⟨s', c'', heq, hs', hd'', htold', hinf'⟩ := ih hturn.state hnext (by rwa [hwhole'])
          (by rw [List.length_drop]; omega) hd'
        refine ⟨s', c'', heq, hwhole' ▸ hs', hd'', ?_, ?_⟩
        · have htext := hturn.text (x.drop r.consumed)
          rw [hwhole'] at htext htold'
          rw [htext]
          exact htold.trans htold'
        · rw [hinf', hinf, Option.map_map]
          rfl

-- ---- the three functions ----

-- The stream that the inflater reads on, behind a message.
def rebased (nct : Bool) (h : Bytes) : Bytes := if nct then [] else h

-- `data` has gone to on_message, and fin with it or behind it.
def Conn.Fined (c c' : Conn σ δ) (data : Bytes) : Prop :=
  ∀ n ≤ c.log.length, n ≤ c'.log.length ∧
    heard (c'.log.drop n) = ((heard (c.log.drop n)).1 ++ [(heard (c.log.drop n)).2 ++ data], [])

namespace Conn

theorem Told.fined {a b c : Conn σ δ} {x y : Bytes} (h : Told a b x) (h' : Fined b c y) :
    Fined a c (x ++ y) := by
  intro n hn
  obtain ⟨hle, heq⟩ := h n hn
  obtain ⟨hle', heq'⟩ := h' n hle
  exact ⟨hle', by rw [heq', heq, List.append_assoc]⟩

theorem Fined.told {a b c : Conn σ δ} {x : Bytes} (h : Fined a b x) (h' : Told b c []) :
    Fined a c x := by
  intro n hn
  obtain ⟨hle, heq⟩ := h n hn
  obtain ⟨hle', heq'⟩ := h' n hle
  exact ⟨hle', by rw [heq', heq, List.append_nil]⟩

-- An allocation that has not failed.
theorem alloc_granted {c : Conn σ δ} {n : Nat} (hn : n ≤ c.log.length)
    (h : Event.alloc false ∉ (c.alloc env).2.log.drop n) : (c.alloc env).1 = true := by
  unfold alloc emit at h
  by_contra hfalse
  rw [Bool.not_eq_true] at hfalse
  refine h ?_
  rw [List.drop_append_of_le_length hn]
  exact List.mem_append_right _ (by simpa [alloc] using hfalse)

theorem alloc_told (c : Conn σ δ) : Told c (c.alloc env).2 [] :=
  .of_unheard ⟨[_], rfl, by simp [Event.delivers]⟩

theorem inflateRest_spec (hz : env.zlib.Inflates D at_) {s : σ} {nct : Bool} {h : Bytes} {c : Conn σ δ}
    (hinf : c.inflater = some (s, nct)) (hs : at_ s h (D.text h).length) :
    ∃ s', at_ s' (rebased nct h) (D.text (rebased nct h)).length ∧
      (c.inflateRest env).inflater = some (s', nct) := by
  obtain ⟨df, hdf, heq⟩ := Option.map_eq_some_iff.mp hinf
  cases heq
  unfold inflateRest inflater rebased
  cases hnct : df.serverNoContextTakeover with
  | true =>
      refine ⟨env.zlib.inflateReset df.inflate, ?_, by simp [hdf, hnct]⟩
      simpa [D.text_nil] using hz.reset df.inflate
  | false => exact ⟨df.inflate, by simpa using hs, by simp [hdf, hnct]⟩

section

include hg hm

theorem message_fined (site : Site) (data : Bytes) (isBin : Bool) (total : Nat) {c : Conn σ δ}
    (hd : c.destroyed = false) : Fined c (message env site data isBin true total c) data :=
  fun _ hn => heard_message hg hm site data isBin true total hd hn

theorem decompressStreamChunk_takes (hz : env.zlib.Inflates D at_) {s : σ} {nct : Bool} {h : Bytes}
    (data : Bytes) (isBin : Bool) {c : Conn σ δ} (hd : c.destroyed = false)
    (hinf : c.inflater = some (s, nct)) (hs : at_ s h (D.text h).length) (hgo : D.Going h data)
    (hlen : data.length < 4294967296) {n : Nat} (hn : n ≤ c.log.length)
    (hok : Event.alloc false ∉ (decompressStreamChunk env data isBin c).2.log.drop n) :
    ∃ s' c', decompressStreamChunk env data isBin c = (0, c') ∧
      at_ s' (h ++ data) (D.text (h ++ data)).length ∧
      Told c c' ((D.text (h ++ data)).drop (D.text h).length) ∧ c'.inflater = some (s', nct) := by
  obtain ⟨df, hdf, heq⟩ := Option.map_eq_some_iff.mp hinf
  cases heq
  have hinput : availIn data = data := by
    rw [availIn, Nat.mod_eq_of_lt hlen, List.take_length]
  unfold decompressStreamChunk at hok ⊢
  rw [if_neg (by simp [Option.isSome_iff_ne_none.mp hm]), hdf] at hok ⊢
  dsimp only at hok ⊢
  have halloc : (c.alloc env).1 = true := by
    by_contra hno
    rw [if_pos (by simpa using hno)] at hok
    exact hno (alloc_granted hn hok)
  obtain ⟨s', c', hloop, hs', hd', htold, hinf'⟩ := inflateLoop_takes hg hm hz
    ⟨.inflateChunk, .noFlush, false, false⟩ isBin (inflateFuel env.zlib df.inflate data) hs hgo.takes
    (fun hfin => by cases (hgo data List.prefix_rfl).symm.trans hfin) (Nat.lt_succ_self _)
    (show (c.alloc env).2.destroyed = false from hd)
  rw [if_neg (by simp [halloc]), hinput, hloop]
  refine ⟨s', c', rfl, hs', (alloc_told c).trans htold, ?_⟩
  · rw [hinf', show (c.alloc env).2.inflater = c.inflater from rfl, hinf]
    rfl

-- The end of a message: the tail, fin, and the reset if there is one.
theorem finish_takes (hz : env.zlib.Inflates D at_) (site : Site) (isBin : Bool) {s : σ} {nct : Bool}
    {h : Bytes} {c : Conn σ δ} (hd : c.destroyed = false) (hinf : c.inflater = some (s, nct))
    (hs : at_ s h (D.text h).length) :
    ∃ s', at_ s' (rebased nct h) (D.text (rebased nct h)).length ∧
      Fined c ((message env site [] isBin true 0 c).inflateRest env) [] ∧
      ((message env site [] isBin true 0 c).inflateRest env).inflater = some (s', nct) := by
  have hsent := message_inflater hg hm site [] isBin true 0 hd
  obtain ⟨s', hs', hinf'⟩ := inflateRest_spec hz (hsent.trans hinf) hs
  exact ⟨s', hs', (message_fined hg hm site [] isBin 0 hd).told (.of_log rfl), hinf'⟩

theorem decompressStreamEnd_takes (hz : env.zlib.Inflates D at_) {s : σ} {nct : Bool} {h x : Bytes}
    (isBin : Bool) {c : Conn σ δ} (hd : c.destroyed = false) (hsent : c.msg.finSent = false)
    (hinf : c.inflater = some (s, nct)) (hs : at_ s h (D.text h).length)
    (ht : D.Takes h x deflateTail) {n : Nat} (hn : n ≤ c.log.length)
    (hok : Event.alloc false ∉ (decompressStreamEnd env isBin c).2.log.drop n) :
    ∃ s' c', decompressStreamEnd env isBin c = (0, c') ∧
      at_ s' (rebased nct (h ++ x)) (D.text (rebased nct (h ++ x))).length ∧
      Fined c c' ((D.text (h ++ x)).drop (D.text h).length) ∧ c'.inflater = some (s', nct) := by
  obtain ⟨df, hdf, heq⟩ := Option.map_eq_some_iff.mp hinf
  cases heq
  unfold decompressStreamEnd at hok ⊢
  rw [if_neg (by simp [Option.isSome_iff_ne_none.mp hm]), hdf] at hok ⊢
  dsimp only at hok ⊢
  have halloc : (c.alloc env).1 = true := by
    by_contra hno
    rw [if_pos (by simpa using hno)] at hok
    exact hno (alloc_granted hn hok)
  have hd₁ : (c.alloc env).2.destroyed = false := hd
  obtain ⟨s', c', hloop, hs', hd', htold, hinf'⟩ := inflateLoop_takes hg hm hz
    ⟨.inflateEnd, .syncFlush, true, true⟩ isBin (inflateFuel env.zlib df.inflate deflateTail) hs ht
    (fun _ => ⟨rfl, rfl⟩) (Nat.lt_succ_self _) hd₁
  have hsame := inflateLoop_sameBuf hg hm ⟨.inflateEnd, .syncFlush, true, true⟩ isBin
    (inflateFuel env.zlib df.inflate deflateTail) df.inflate deflateTail hd₁
  rw [hloop] at hsame
  have hfin : c'.msg.finSent = false := (congrArg MsgState.finSent hsame.msg).trans hsent
  rw [if_neg (by simp [halloc]), hloop]
  simp only [Bool.not_true, Bool.false_eq_true, if_false, hfin, Bool.not_false, if_true]
  have hinf₁ : c'.inflater = some (s', df.serverNoContextTakeover) := by
    rw [hinf', show (c.alloc env).2.inflater = c.inflater from rfl, hinf]
    rfl
  obtain ⟨s'', hs'', hfined, hinf''⟩ := finish_takes hg hm hz .inflateEnd isBin
    (c := { c' with msg := { c'.msg with finSent := true } }) hd' hinf₁ hs'
  refine ⟨s'', _, rfl, hs'', ?_, hinf''⟩
  have hset : Told c' { c' with msg := { c'.msg with finSent := true } } [] := .of_log rfl
  have hall := (((alloc_told c).trans htold).trans hset).fined hfined
  rwa [List.nil_append, List.append_nil, List.append_nil] at hall

omit hg in
-- With both buffers allocated, all is up to the loop.
theorem decompressOneshot_granted {s : σ} {nct : Bool} (data : Bytes) (isBin : Bool) {c : Conn σ δ}
    (hinf : c.inflater = some (s, nct)) (hlen : data.length + 4 < 4294967296) {n : Nat}
    (hn : n ≤ c.log.length)
    (hok : Event.alloc false ∉ (decompressOneshot env data isBin c).2.log.drop n) :
    ∃ c₀, Told c c₀ [] ∧ c₀.destroyed = c.destroyed ∧ c₀.inflater = c.inflater ∧
      decompressOneshot env data isBin c =
        (let r := inflateLoop env ⟨.inflateOneshot, .syncFlush, true, true⟩ isBin
          (inflateFuel env.zlib s (data ++ deflateTail)) s (data ++ deflateTail) c₀
        if !r.1 then r.2
        else (Err.success, (message env .inflateOneshot [] isBin true 0 r.2.2).inflateRest env)) := by
  obtain ⟨df, hdf, heq⟩ := Option.map_eq_some_iff.mp hinf
  cases heq
  have hinput : availIn (data ++ deflateTail) = data ++ deflateTail := by
    have hl : (data ++ deflateTail).length = data.length + 4 := List.length_append
    rw [availIn, Nat.mod_eq_of_lt (by omega), List.take_length]
  unfold decompressOneshot at hok ⊢
  rw [if_neg (by simp [Option.isSome_iff_ne_none.mp hm]), hdf] at hok ⊢
  dsimp only at hok ⊢
  have halloc : (c.alloc env).1 = true := by
    by_contra hno
    rw [if_pos (by simpa using hno)] at hok
    exact hno (alloc_granted hn hok)
  rw [if_neg (by simp [halloc])] at hok ⊢
  have halloc₂ : ((c.alloc env).2.alloc env).1 = true := by
    by_contra hno
    rw [if_pos (by simpa using hno)] at hok
    exact hno (alloc_granted (by simp only [alloc, emit, List.length_append]; omega) hok)
  rw [if_neg (by simp [halloc₂]), hinput]
  exact ⟨_, (alloc_told c).trans (alloc_told (c.alloc env).2), rfl, rfl, rfl⟩

theorem decompressOneshot_takes (hz : env.zlib.Inflates D at_) {s : σ} {nct : Bool} {h x : Bytes}
    (data : Bytes) (isBin : Bool) {c : Conn σ δ} (hd : c.destroyed = false)
    (hinf : c.inflater = some (s, nct)) (hs : at_ s h (D.text h).length)
    (ht : D.Takes h x (data ++ deflateTail)) (hlen : data.length + 4 < 4294967296) {n : Nat}
    (hn : n ≤ c.log.length)
    (hok : Event.alloc false ∉ (decompressOneshot env data isBin c).2.log.drop n) :
    ∃ s' c', decompressOneshot env data isBin c = (0, c') ∧
      at_ s' (rebased nct (h ++ x)) (D.text (rebased nct (h ++ x))).length ∧
      Fined c c' ((D.text (h ++ x)).drop (D.text h).length) ∧ c'.inflater = some (s', nct) := by
  obtain ⟨c₀, htold₀, hd₀, hinf₀, heq⟩ := decompressOneshot_granted hm data isBin hinf hlen hn hok
  obtain ⟨s', c', hloop, hs', hd', htold, hinf'⟩ := inflateLoop_takes hg hm hz
    ⟨.inflateOneshot, .syncFlush, true, true⟩ isBin (inflateFuel env.zlib s (data ++ deflateTail)) hs ht
    (fun _ => ⟨rfl, rfl⟩) (Nat.lt_succ_self _) (hd₀.trans hd)
  rw [hloop] at heq
  simp only [Bool.not_true, Bool.false_eq_true, if_false] at heq
  rw [hinf₀, hinf] at hinf'
  obtain ⟨s'', hs'', hfined, hinf''⟩ := finish_takes hg hm hz .inflateOneshot isBin hd' hinf' hs'
  refine ⟨s'', _, heq, hs'', ?_, hinf''⟩
  have hall := (htold₀.trans htold).fined hfined
  rwa [List.nil_append, List.append_nil] at hall

end

end Conn

end

end Sevent.Ws
