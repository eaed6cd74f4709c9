import Sevent.Ws.Steps
import Sevent.Ws.Visit

-- The CLOSE frames that a connection sends.
namespace Sevent.Ws

open Sevent.Stream (WriteRes)

variable {σ δ : Type}

-- ---- what a log says ----

-- A CLOSE frame that the stream has taken.
def Event.closeTaken : Event → Bool
  | .frameOut opcode _ res => opcode == Opcode.close && res.ret == Err.success
  | _ => false

-- A frame of a message, whatever becomes of it.
def Event.dataOut : Event → Bool
  | .frameOut opcode _ _ => opcode == Opcode.text || opcode == Opcode.binary || opcode == Opcode.cont
  | _ => false

def ClosedOut (log : List Event) : Prop := ∃ e ∈ log, e.closeTaken = true

structure Discipline (log : List Event) : Prop where
  once : (log.filter Event.closeTaken).length ≤ 1
  last : Trace.AtEach (fun past e => e.dataOut = true → ¬ ClosedOut past) log

def Event.closingCode : Event → Bool
  | .closeCode _ .closing => true
  | _ => false

-- ws_send_close_code runs in CLOSING, after a CLOSE frame has been sent.
def Clash : List Event → Prop :=
  Trace.Somewhere fun past e => e.closingCode = true ∧ ClosedOut past

instance decidableClosedOut (log : List Event) : Decidable (ClosedOut log) :=
  inferInstanceAs (Decidable (∃ e ∈ log, e.closeTaken = true))

instance decidableClash (log : List Event) : Decidable (Clash log) :=
  inferInstanceAs (Decidable (Trace.Somewhere _ log))

@[simp] theorem closedOut_append (log l : List Event) :
    ClosedOut (log ++ l) ↔ ClosedOut log ∨ ∃ e ∈ l, e.closeTaken = true :=
  exists_mem_append _ log l

-- Neither a CLOSE frame nor a frame of a message.
def Event.hushed (e : Event) : Bool := !e.closeTaken && !e.dataOut

theorem closedOut_hushed {log l : List Event} (hl : ∀ e ∈ l, e.hushed = true) :
    ClosedOut (log ++ l) ↔ ClosedOut log := by
  rw [closedOut_append, or_iff_left]
  rintro ⟨e, he, ht⟩
  simpa [Event.hushed, ht] using hl e he

theorem Discipline.append {log l : List Event} (h : Discipline log)
    (hl : ∀ e ∈ l, e.hushed = true) : Discipline (log ++ l) where
  once := by
    have hnil : l.filter Event.closeTaken = [] := by
      refine List.filter_eq_nil_iff.mpr fun e he ht => ?_
      simpa [Event.hushed, ht] using hl e he
    rw [List.filter_append, hnil, List.append_nil]
    exact h.once
  last := h.last.append l fun e he past hd => by simpa [Event.hushed, hd] using hl e he

theorem Discipline.close {log : List Event} (h : Discipline log) (hn : ¬ ClosedOut log) {e : Event}
    (hd : e.dataOut = false) : Discipline (log ++ [e]) where
  once := by
    have hnil : log.filter Event.closeTaken = [] :=
      List.filter_eq_nil_iff.mpr fun e he ht => hn ⟨e, he, ht⟩
    rw [List.filter_append, hnil, List.nil_append]
    exact (List.length_filter_le _ _).trans (Nat.le_refl 1)
  last := (Trace.atEach_concat _ _ _).mpr ⟨h.last, fun ht => by simp [hd] at ht⟩

theorem Discipline.data {log : List Event} (h : Discipline log) (hn : ¬ ClosedOut log) {e : Event}
    (hc : e.closeTaken = false) : Discipline (log ++ [e]) where
  once := by
    rw [List.filter_append, List.filter_singleton, hc]
    simpa using h.once
  last := (Trace.atEach_concat _ _ _).mpr ⟨h.last, fun _ => hn⟩

namespace Conn

variable {env : Env σ δ}

-- ---- the invariant ----

structure Spoken (c : Conn σ δ) : Prop where
  discipline : Discipline c.log
  begun : ClosedOut c.log → c.stream ≠ .opening ∧ c.state ≠ .connecting ∧ c.state ≠ .handshake
  idle : c.destroyed = true → c.stream = .idle

-- After a CLOSE frame the connection is in OPEN no more, unless its stream is gone.
structure Parting (c : Conn σ δ) : Prop extends Spoken c where
  left : ClosedOut c.log → c.state = .opened → c.stream = .idle

theorem Spoken.parting {c : Conn σ δ} (h : Spoken c) (hs : c.state = .opened → c.stream = .idle) :
    Parting c :=
  ⟨h, fun _ => hs⟩

-- Nothing has been sent that matters to the invariant.
structure Hush (c c' : Conn σ δ) : Prop where
  log : ∃ l, c'.log = c.log ++ l ∧ ∀ e ∈ l, e.hushed = true
  stream : c'.stream = c.stream ∨ c'.stream = .idle
  state : c'.state = c.state ∨ c'.state = .closing ∨ c'.state = .closed
  destroyed : c'.destroyed = true → c.destroyed = true ∨ c'.stream = .idle

theorem Hush.emit (c : Conn σ δ) {e : Event} (he : e.hushed = true) : Hush c (c.emit e) :=
  ⟨⟨[e], rfl, by simpa using he⟩, .inl rfl, .inl rfl, .inl⟩

theorem Hush.store {c c' : Conn σ δ}
    (h : (c'.state, c'.destroyed, c'.stream, c'.log) = (c.state, c.destroyed, c.stream, c.log)) :
    Hush c c' := by
  simp only [Prod.mk.injEq] at h
  obtain ⟨hstate, hd, hstream, hlog⟩ := h
  exact ⟨⟨[], by simp [hlog], nofun⟩, .inl hstream, .inl hstate, fun hdes => .inl (hd ▸ hdes)⟩

theorem Hush.closing (c : Conn σ δ) : Hush c (c.setState .closing) :=
  ⟨⟨[.state .closing], rfl, by simp [Event.hushed, Event.closeTaken, Event.dataOut]⟩, .inl rfl,
    .inr (.inl rfl), .inl⟩

theorem shutEvents_hushed (c : Conn σ δ) : ∀ e ∈ shutEvents c, e.hushed = true := by
  intro e he
  cases e <;> simp [shutEvents, Event.hushed, Event.closeTaken, Event.dataOut] at he ⊢

theorem Hush.shut (c : Conn σ δ) : Hush c c.shut := by
  rw [shut_eq]
  exact ⟨⟨shutEvents c, rfl, shutEvents_hushed c⟩, .inr rfl, .inr (.inr rfl), fun _ => .inr rfl⟩

theorem Hush.close (c : Conn σ δ) : Hush c c.close := by
  rw [close_eq]
  refine ⟨⟨closeEvents c, rfl, fun e he => ?_⟩, .inr rfl, .inr (.inr rfl), fun _ => .inr rfl⟩
  cases e <;> simp [closeEvents, Event.hushed, Event.closeTaken, Event.dataOut] at he ⊢

theorem Hush.notifyNested (n : Notice) (c : Conn σ δ) : Hush c (notifyNested env n c) := by
  rw [notifyNested_eq]
  refine ⟨⟨noticeEvents env n, rfl, fun e he => ?_⟩, .inl rfl, .inl rfl, .inl⟩
  unfold noticeEvents at he
  split at he
  · rw [List.mem_singleton.mp he]
    cases n <;> rfl
  · cases he

theorem Hush.written (c : Conn σ δ) {e : Event} (he : e.hushed = true) (res : WriteRes) :
    Hush c (c.written e res) := by
  refine ⟨⟨[e], rfl, by simpa using he⟩, ?_, .inl rfl, .inl⟩
  unfold Conn.written
  dsimp only
  split
  · exact .inr rfl
  · exact .inl rfl

theorem Hush.closedOut {c c' : Conn σ δ} (h : Hush c c') : ClosedOut c'.log ↔ ClosedOut c.log := by
  obtain ⟨l, hlog, hl⟩ := h.log
  rw [hlog]
  exact closedOut_hushed hl

theorem Hush.spoken {c c' : Conn σ δ} (h : Hush c c') (hs : Spoken c) : Spoken c' where
  discipline := by
    obtain ⟨l, hlog, hl⟩ := h.log
    rw [hlog]
    exact hs.discipline.append hl
  begun hout := by
    obtain ⟨hstream, hconn, hhand⟩ := hs.begun (h.closedOut.mp hout)
    refine ⟨?_, ?_, ?_⟩
    · rcases h.stream with he | he
      · exact he ▸ hstream
      · simp [he]
    · rcases h.state with he | he | he
      · exact he ▸ hconn
      · simp [he]
      · simp [he]
    · rcases h.state with he | he | he
      · exact he ▸ hhand
      · simp [he]
      · simp [he]
  idle hd := by
    rcases h.destroyed hd with hd | hidle
    · exact h.stream.elim (fun he => he.trans (hs.idle hd)) id
    · exact hidle

theorem Hush.parting {c c' : Conn σ δ} (h : Hush c c') (hp : Parting c) : Parting c' := by
  refine ⟨h.spoken hp.toSpoken, fun hout ho => ?_⟩
  rcases h.state with he | he | he
  · have hidle := hp.left (h.closedOut.mp hout) (he.symm.trans ho)
    exact h.stream.elim (fun he => he.trans hidle) id
  · cases he.symm.trans ho
  · cases he.symm.trans ho

-- Nothing is said about a connection that has sent a CLOSE frame for bad UTF-8 in CLOSING.
def Says (c : Conn σ δ) : Prop := Clash c.log ∨ Spoken c

def Talks (c : Conn σ δ) : Prop := Clash c.log ∨ Parting c

theorem Talks.toSays {c : Conn σ δ} (h : Talks c) : Says c := h.imp_right Parting.toSpoken

theorem Hush.prefix_log {c c' : Conn σ δ} (h : Hush c c') : c.log <+: c'.log := by
  obtain ⟨l, hlog, -⟩ := h.log
  exact hlog ▸ List.prefix_append _ _

theorem Hush.toSays {c c' : Conn σ δ} (h : Hush c c') (hs : Says c) : Says c' :=
  hs.imp (Trace.Somewhere.mono h.prefix_log) h.spoken

theorem Hush.talks {c c' : Conn σ δ} (h : Hush c c') (ht : Talks c) : Talks c' :=
  ht.imp (Trace.Somewhere.mono h.prefix_log) h.parting

theorem Says.talks {c : Conn σ δ} (h : Says c) (hs : c.state = .opened → c.stream = .idle) : Talks c :=
  h.imp_right fun h => h.parting hs

theorem Says.shut {c : Conn σ δ} (h : Says c) : Talks c.shut :=
  ((Hush.shut c).toSays h).talks fun ho => by simp [shut_eq] at ho

-- ---- the operations ----

section

variable {nt : Notice → Conn σ δ → Conn σ δ}
variable (hn : ∀ n c, Talks c → Talks (nt n c))

include hn

theorem fatalEnd_talks (err : Int) {c : Conn σ δ} (h : Says c) : Talks (fatalEnd nt err c) :=
  hn (.error err) c.shut h.shut

theorem enterClosed_talks (code : Nat) (reason : Bytes) {c : Conn σ δ} (h : Says c)
    (hg : c.gone = true → Talks c) : Talks (enterClosed nt code reason c) := by
  unfold enterClosed
  split
  · exact hg ‹_›
  · exact hn (.close code reason) c.shut h.shut

theorem settle_talks (res : WriteRes) {c : Conn σ δ} (h : Talks c) : Talks (settle nt res c) := by
  have hfatal : ∀ err, Talks (fatalEnd nt err c) := fun err => fatalEnd_talks hn err h.toSays
  have hclosed : ∀ code reason, Talks (enterClosed nt code reason c) :=
    fun code reason => enterClosed_talks hn code reason h.toSays fun _ => h
  cases res with
  | failed err =>
      simp only [settle, onStreamError]
      split_ifs
      · exact h
      · exact hfatal _
      · exact hfatal _
      · exact hclosed _ _
  | torn accepted =>
      simp only [settle, onStreamClose]
      split_ifs
      · exact h
      · exact hfatal _
      · exact hclosed _ _
  | ok => exact h
  | nomem => exact h
  | inval => exact h

omit hn in
theorem seed_alloc_hush (c : Conn σ δ) (seed : UInt32) {events : List Event}
    (he : events = [] ∨ ∃ ok, events = [Event.alloc ok]) :
    Hush c { c with maskSeed := seed, log := c.log ++ events } := by
  refine ⟨⟨events, rfl, ?_⟩, .inl rfl, .inl rfl, .inl⟩
  rcases he with rfl | ⟨ok, rfl⟩ <;> simp [Event.hushed, Event.closeTaken, Event.dataOut]

-- Any frame but a CLOSE.
theorem sendFrameRaw_talks (opcode : Nat) (hop : opcode ≠ Opcode.close) (payload : Arg) (rsv1 : Bool)
    {c : Conn σ δ} (h : Talks c) : Talks (sendFrameRaw env nt opcode payload rsv1 c).2 := by
  rcases sendFrameRaw_cases env nt opcode payload rsv1 c with
    ⟨seed, events, he, hr⟩ | ⟨seed, data, res, hs, ho, hr⟩
  · rw [hr]
    exact (seed_alloc_hush c seed he).talks h
  rw [hr]
  refine settle_talks hn res ?_
  have h₁ := (seed_alloc_hush c seed (.inr ⟨true, rfl⟩)).talks h
  have hstate : ({ c with maskSeed := seed, log := c.log ++ [.alloc true] } : Conn σ δ).state = c.state := rfl
  have hstream : ({ c with maskSeed := seed, log := c.log ++ [.alloc true] } : Conn σ δ).stream = .opened := hs
  generalize ({ c with maskSeed := seed, log := c.log ++ [.alloc true] } : Conn σ δ) = d at h₁ hstate hstream ⊢
  have hclose : (Event.frameOut opcode data res).closeTaken = false := by simp [Event.closeTaken, hop]
  by_cases hd : (Event.frameOut opcode data res).dataOut = true
  · -- only in OPEN
    have hopened : d.state = .opened := by
      rcases ho with ho | ⟨-, rfl | rfl | rfl⟩
      · exact hstate.trans ho
      · cases hd
      · cases hd
      · cases hd
    refine h₁.imp (Trace.Somewhere.mono (List.prefix_append _ _)) fun hp => ?_
    have hnot : ¬ ClosedOut d.log := fun hout => by simp [hp.left hout hopened] at hstream
    have hout : ¬ ClosedOut (d.written (.frameOut opcode data res) res).log := by
      rintro hc
      rcases (closedOut_append d.log [.frameOut opcode data res]).mp hc with hc | ⟨e, he, ht⟩
      · exact hnot hc
      · rw [List.mem_singleton.mp he, hclose] at ht
        cases ht
    refine ⟨⟨hp.discipline.data hnot hclose, fun hc => absurd hc hout, fun hdes => ?_⟩,
      fun hc => absurd hc hout⟩
    simp [hp.idle hdes] at hstream
  · exact (Hush.written d (by simp [Event.hushed, hclose, hd]) res).talks h₁

-- A CLOSE frame; in CLOSING it may be the second one.
theorem sendClose_talks (payload : Arg) {c : Conn σ δ} (h : Talks c)
    (hfree : c.state = .closing → c.stream = .opened → ClosedOut c.log → Clash c.log) :
    Talks (sendFrame env nt Opcode.close payload c).2 ∨
      (sendFrame env nt Opcode.close payload c).1 = Err.success ∧
        Says (sendFrame env nt Opcode.close payload c).2 ∧
        (sendFrame env nt Opcode.close payload c).2.gone = false := by
  unfold sendFrame
  rcases sendFrameRaw_result env nt Opcode.close payload false c with
    ⟨seed, events, he, hr⟩ | ⟨seed, data, res, hs, ho, hr⟩
  · rw [hr]
    exact .inl ((seed_alloc_hush c seed he).talks h)
  rw [hr]
  have hhush := seed_alloc_hush c seed (.inr ⟨true, rfl⟩)
  have hstream : ({ c with maskSeed := seed, log := c.log ++ [.alloc true] } : Conn σ δ).stream = .opened := hs
  have hstate : ({ c with maskSeed := seed, log := c.log ++ [.alloc true] } : Conn σ δ).state = c.state := rfl
  generalize ({ c with maskSeed := seed, log := c.log ++ [.alloc true] } : Conn σ δ) = d
    at hhush hstream hstate ⊢
  have hmono : Clash c.log → Talks (settle nt res (d.written (.frameOut Opcode.close data res) res)) :=
    fun hclash => settle_talks hn res (.inl (hclash.mono
      (hhush.prefix_log.trans (List.prefix_append _ _))))
  rcases h with hclash | hp
  · exact .inl (hmono hclash)
  by_cases hout : ClosedOut c.log
  · rcases ho with ho | ⟨ho, -⟩
    · simp [hp.left hout ho] at hs
    · exact .inl (hmono (hfree ho hs hout))
  have hpd := hhush.parting hp
  have hnot : ¬ ClosedOut d.log := fun h => hout (hhush.closedOut.mp h)
  have hconn : d.state ≠ .connecting ∧ d.state ≠ .handshake := by
    rcases ho with ho | ⟨ho, -⟩ <;> simp [hstate, ho]
  have hd : d.destroyed = false := by
    by_contra hd
    simp [hpd.idle (by simpa using hd)] at hstream
  -- the frame has been handed over
  have htaken : ∀ stream : StreamState, stream ≠ .opening →
      Spoken { d with stream := stream, log := d.log ++ [.frameOut Opcode.close data res] } :=
    fun stream hne => ⟨hpd.discipline.close hnot rfl, fun _ => ⟨hne, hconn⟩,
      fun hdes => by simp [hd] at hdes⟩
  cases res with
  | ok =>
      refine .inr ⟨rfl, .inr (htaken d.stream (by simp [hstream])), ?_⟩
      rcases ho with ho | ⟨ho, -⟩ <;> simp [settle, written, gone, hd, hstate, ho]
  | nomem => exact .inl ((Hush.written d rfl _).talks (.inr hpd))
  | inval => exact .inl ((Hush.written d rfl _).talks (.inr hpd))
  | failed err =>
      exact .inl (settle_talks hn _ (.inr ((htaken .idle (by decide)).parting fun _ => rfl)))
  | torn accepted =>
      exact .inl (settle_talks hn _ (.inr ((htaken .idle (by decide)).parting fun _ => rfl)))

theorem fatal_talks (err : Int) {c : Conn σ δ} (h : Talks c) : Talks (fatal env nt err c) := by
  unfold fatal
  split
  · exact h
  refine fatalEnd_talks hn err ?_
  split
  · rename_i hopen
    -- nothing has been sent on the stream of an OPEN connection
    have hfree : (c.setState .closing).stream = .opened → ClosedOut (c.setState .closing).log →
        Clash (c.setState .closing).log := by
      intro hs hout
      rcases h with hclash | hp
      · exact hclash.mono (List.prefix_append _ _)
      · have hidle := hp.left ((Hush.closing c).closedOut.mp hout) hopen.2
        simp [setState, hidle] at hs
    rcases sendClose_talks hn (.bytes (beCode 1002)) ((Hush.closing c).talks h)
      fun _ => hfree with hsent | ⟨-, hsent, -⟩
    · exact hsent.toSays
    · exact hsent
  · exact h.toSays

theorem sendCloseCode_talks (code : Nat) {c : Conn σ δ} (h : Talks c) :
    Talks (sendCloseCode env nt code c) := by
  have h₁ : Talks (c.emit (.closeCode code c.state)) := (Hush.emit c rfl).talks h
  have hclash : c.state = .closing → ClosedOut (c.emit (.closeCode code c.state)).log →
      Clash (c.emit (.closeCode code c.state)).log := fun hc hout =>
    ⟨c.log, .closeCode code c.state, List.prefix_rfl, by rw [hc]; rfl,
      (Hush.emit c rfl).closedOut.mp hout⟩
  rcases sendClose_talks hn (.bytes (beCode code)) h₁ fun hc _ => hclash hc with
    hsent | ⟨-, hsent, hg⟩
  · exact enterClosed_talks hn code [] hsent.toSays fun _ => hsent
  · exact enterClosed_talks hn code [] hsent fun hgone => by simp [hg] at hgone

theorem acceptClose_talks (payload : Bytes) (code : Nat) (reason : Bytes) {c : Conn σ δ} (h : Talks c) :
    Talks (if c.state = .closing then enterClosed nt code reason c
      else enterClosed nt code reason (sendFrame env nt Opcode.close (.bytes payload) c).2) := by
  split
  · exact enterClosed_talks hn code reason h.toSays fun _ => h
  · rename_i hc
    rcases sendClose_talks hn (.bytes payload) h fun hc' => absurd hc' hc with
      hsent | ⟨-, hsent, hg⟩
    · exact enterClosed_talks hn code reason hsent.toSays fun _ => hsent
    · exact enterClosed_talks hn code reason hsent fun hgone => by simp [hg] at hgone

-- ---- the calls of the user ----

theorem failWrite_talks (r : Int × Conn σ δ) (h : Talks r.2) : Talks (failWrite env nt r).2 := by
  unfold failWrite
  split
  · exact fatal_talks hn _ h
  · exact h

theorem sendMessage_talks (opcode : Nat) (hop : opcode ≠ Opcode.close) (payload : Arg) {c : Conn σ δ}
    (h : Talks c) : Talks (sendMessage env nt opcode payload c).2 := by
  unfold sendMessage
  cases c.deflate with
  | none => exact sendFrameRaw_talks hn opcode hop payload false h
  | some df =>
      dsimp only
      split
      · exact sendFrameRaw_talks hn opcode hop payload false h
      have ha : Talks (c.alloc env).2 := (Hush.emit c rfl).talks h
      split
      · exact ha
      have hset : ∀ df : Deflate σ δ, Talks { (c.alloc env).2 with deflate := some df } := by
        intro df
        have hs : Hush (c.alloc env).2 { (c.alloc env).2 with deflate := some df } := .store rfl
        exact hs.talks ha
      split
      · exact hset _
      · exact sendFrameRaw_talks hn opcode hop _ true (hset _)

theorem shutdown_talks (code : Nat) (reason : Option Bytes) {c : Conn σ δ} (h : Talks c) :
    Talks (shutdown env nt code reason c).2 := by
  unfold shutdown
  split
  · exact h
  rename_i ho
  dsimp only
  refine failWrite_talks hn _ ?_
  rcases sendClose_talks hn (.bytes (beCode code ++ (cString (reason.getD [])).take 123)) h
    fun hc => absurd hc (by simp [of_not_not ho]) with hsent | ⟨hrc, hsent, hg⟩
  · split
    · exact (Hush.closing _).talks hsent
    · exact hsent
  · rw [if_pos ⟨hrc, by simp [hg]⟩]
    exact ((Hush.closing _).toSays hsent).talks nofun

theorem call_talks (a : Api) {c : Conn σ δ} (h : Talks c) : Talks (call env nt a c) := by
  unfold call
  refine (Hush.emit _ rfl).talks ?_
  cases a with
  | sendText data =>
      have hsend : Talks (failWrite env nt (sendMessage env nt Opcode.text data c)).2 :=
        failWrite_talks hn _ (sendMessage_talks hn Opcode.text (by decide) data h)
      dsimp only
      unfold sendText
      split
      · exact h
      · exact hsend
      · split
        · exact h
        · exact hsend
  | sendBinary data =>
      dsimp only
      unfold sendBinary
      split
      · exact h
      · exact failWrite_talks hn _ (sendMessage_talks hn Opcode.binary (by decide) data h)
  | ping payload =>
      dsimp only
      unfold ping
      split
      · exact h
      · exact failWrite_talks hn _ (sendFrameRaw_talks hn Opcode.ping (by decide) payload false h)
  | shutdown code reason => exact shutdown_talks hn code reason h
  | close => exact (Hush.close c).talks h
  | destroy => exact (Hush.emit _ rfl).talks ((Hush.close c).talks h)

theorem calls_talks (script : List Api) {c : Conn σ δ} (h : Talks c) :
    Talks (calls env nt script c) := by
  unfold calls
  induction script generalizing c with
  | nil => exact h
  | cons a rest ih => exact ih (call_talks hn a h)

end

theorem notify_talks (n : Notice) {c : Conn σ δ} (h : Talks c) : Talks (notify env n c) := by
  unfold notify
  cases noticeCallback env n with
  | none => exact h
  | some cb =>
      refine calls_talks (fun m c hc => (Hush.notifyNested m c).talks hc) _ ((Hush.emit c ?_).talks h)
      cases n <;> rfl

theorem callback_talks (cb : Callback) {e : Event} (he : e.hushed = true) {c : Conn σ δ}
    (h : Talks c) : Talks (callback env cb e c) := by
  unfold callback
  cases cb with
  | none => exact h
  | some cb => exact calls_talks (fun m c hc => notify_talks m hc) _ ((Hush.emit c he).talks h)

theorem message_talks (site : Site) (data : Bytes) (isBin fin : Bool) (total : Nat) {c : Conn σ δ}
    (h : Talks c) : Talks (message env site data isBin fin total c) := by
  unfold message
  split
  · exact (Hush.emit c rfl).talks h
  · exact (Hush.emit _ rfl).talks (callback_talks _ rfl h)

-- ---- the receiving side ----

variable (env) in
theorem talks_upheld : Upholds env (Talks (σ := σ) (δ := δ)) where
  store h heq := by
    simp only [Prod.mk.injEq] at heq
    obtain ⟨h₁, h₂, h₃, -, h₅⟩ := heq
    exact (Hush.store (by rw [h₁, h₂, h₃, h₅])).talks h
  note he h := by
    rename_i e
    exact (Hush.emit _ (by cases e <;> simp_all [Event.traced, Event.hushed, Event.closeTaken,
      Event.dataOut])).talks h
  message site data isBin fin total _ h := message_talks site data isBin fin total h
  pong payload _ h := callback_talks _ rfl h
  sendPong payload _ h :=
    sendFrameRaw_talks (fun m c hc => notify_talks m hc) Opcode.pong (by decide) _ false h
  closeCode code _ h := sendCloseCode_talks (fun m c hc => notify_talks m hc) code h
  acceptClose payload code reason _ h :=
    acceptClose_talks (fun m c hc => notify_talks m hc) payload code reason h
  fatal err _ h := fatal_talks (fun m c hc => notify_talks m hc) err h

-- ---- the handshake ----

-- No CLOSE frame has been sent, and what is left of a destroyed connection has no stream.
def Unsent (c : Conn σ δ) : Prop :=
  Clash c.log ∨ Parting c ∧ ¬ ClosedOut c.log

theorem Unsent.talks {c : Conn σ δ} (h : Unsent c) : Talks c := h.imp_right And.left

theorem Talks.unsent {c : Conn σ δ} (h : Talks c)
    (hs : c.state = .connecting ∨ c.state = .handshake ∨ c.stream = .opening) : Unsent c := by
  refine h.imp_right fun hp => ⟨hp, fun hout => ?_⟩
  obtain ⟨hstream, hconn, hhand⟩ := hp.begun hout
  rcases hs with h | h | h
  · exact hconn h
  · exact hhand h
  · exact hstream h

-- Before a CLOSE frame the state and the stream may be anything.
theorem Unsent.grow {c c' : Conn σ δ} (h : Unsent c) (l : List Event) (hlog : c'.log = c.log ++ l)
    (hl : ∀ e ∈ l, e.hushed = true) (hd : c'.destroyed = true → c'.stream = .idle) : Unsent c' := by
  unfold Unsent
  rw [hlog]
  refine h.imp (Trace.Somewhere.mono (List.prefix_append _ _)) fun ⟨hp, hn⟩ => ?_
  have hout : ¬ ClosedOut (c.log ++ l) := fun h => hn ((closedOut_hushed hl).mp h)
  refine ⟨⟨⟨?_, ?_, hd⟩, ?_⟩, hout⟩
  · rw [hlog]
    exact hp.discipline.append hl
  · rw [hlog]
    exact fun h => absurd h hout
  · rw [hlog]
    exact fun h => absurd h hout

theorem Moves.idle {c c' : Conn σ δ} (hm : Moves env c c') (h : c.stream = .idle) :
    c'.stream = .idle := by
  induction hm with
  | refl => exact h
  | tail _ hm ih =>
      cases hm with
      | note e he => exact ih
      | seed seed => exact ih
      | compressor df d hd => exact ih
      | frame opcode data res hs ho => simp [ih] at hs
      | ended n hg => rw [notifyNested_eq, shut_eq]
      | leave ho => exact ih
      | close => rw [close_eq]

-- Something that is not a frame is written.
theorem reply_talks {ev : WriteRes → Event} (hev : ∀ res, (ev res).hushed = true) {c : Conn σ δ}
    (h : Talks c) : Talks (streamWrite env (notify env) ev c).2 := by
  by_cases hs : c.stream = .opened
  · rw [streamWrite_eq env _ ev c hs]
    exact settle_talks (fun m c hc => notify_talks m hc) _ ((Hush.written c (hev _) _).talks h)
  · unfold streamWrite
    rw [if_pos hs]
    exact h

theorem reply_unsent {ev : WriteRes → Event} (hev : ∀ res, (ev res).hushed = true) {c : Conn σ δ}
    (h : Unsent c) : Unsent (streamWrite env (notify env) ev c).2 ∨
      (streamWrite env (notify env) ev c).2.stream = .idle := by
  by_cases hs : c.stream = .opened
  · rw [streamWrite_eq env _ ev c hs]
    dsimp only
    generalize env.write c.log = res
    by_cases ht : res.tears = true
    · refine .inr (Moves.idle (settle_moves (notify_moves env) res _) ?_)
      simp [written, ht]
    · refine .inl ?_
      have hw : Unsent (c.written (ev res) res) := by
        rcases h with hc | hp
        · exact .inl (hc.mono (List.prefix_append _ _))
        obtain ⟨hp, hn⟩ := hp
        exact .inr ⟨(Hush.written c (hev res) res).parting hp,
          fun hout => hn ((Hush.written c (hev res) res).closedOut.mp hout)⟩
      cases res with
      | ok => exact hw
      | nomem => exact hw
      | inval => exact hw
      | failed err => exact absurd rfl ht
      | torn accepted => exact absurd rfl ht
  · unfold streamWrite
    rw [if_pos hs]
    exact .inl h

theorem Talks.opens {c c' : Conn σ δ} (h : Talks c) (hopen : Unsent c ∨ c.stream = .idle)
    (hstate : c'.state = .opened) (hstream : c'.stream = c.stream)
    (hd : c'.destroyed = c.destroyed) (hlog : c'.log = c.log ++ [.state .opened]) : Talks c' := by
  have hhush : ∀ e ∈ [Event.state .opened], e.hushed = true := by
    simp [Event.hushed, Event.closeTaken, Event.dataOut]
  have hmono : Clash c.log → Clash c'.log := Trace.Somewhere.mono (hlog ▸ List.prefix_append _ _)
  have hclosed : ClosedOut c'.log ↔ ClosedOut c.log := by rw [hlog, closedOut_hushed hhush]
  rcases h with hclash | hp
  · exact .inl (hmono hclash)
  rcases hopen with (hclash | ⟨-, hn⟩) | hidle
  · exact .inl (hmono hclash)
  · refine .inr ⟨⟨hlog ▸ hp.discipline.append hhush, fun hout => absurd (hclosed.mp hout) hn, ?_⟩,
      fun hout => absurd (hclosed.mp hout) hn⟩
    rw [hd, hstream]
    exact hp.idle
  · refine .inr ⟨⟨hlog ▸ hp.discipline.append hhush, fun _ => ?_, ?_⟩, fun _ _ => hstream.trans hidle⟩
    · simp [hstate, hstream, hidle]
    · rw [hd, hstream]
      exact hp.idle

theorem openUp_talks (skip : Nat) {c : Conn σ δ} (h : Talks c) (hopen : Unsent c ∨ c.stream = .idle) :
    Talks (openUp env skip c) := by
  unfold openUp
  extract_lets c₁ c₂ c₃
  have h₁ : Talks c₁ := h.opens hopen rfl rfl rfl rfl
  have h₂ : Talks c₂ := (Hush.emit _ rfl).talks (callback_talks _ rfl h₁)
  have h₃ : Talks c₃ := by
    simp only [c₃, registerPing]
    split
    · refine Hush.talks ⟨⟨_, rfl, ?_⟩, .inl rfl, .inl rfl, .inl⟩ h₂
      simp [Event.hushed, Event.closeTaken, Event.dataOut]
    · exact h₂
  split
  · exact h₂
  split
  · exact h₃
  have hr := (talks_upheld env).runFrames h₃
  dsimp only
  split
  · exact (talks_upheld env).fatal _ hr
  · exact hr

theorem serverHandshakeFail_talks (status : Nat) {c : Conn σ δ} (h : Talks c) :
    Talks (serverHandshakeFail env status c) := by
  unfold serverHandshakeFail
  extract_lets text extra c₁ c₂
  have h₁ : Talks c₁ := by
    simp only [c₁]
    split
    · exact h
    · exact reply_talks (fun _ => rfl) h
  exact callback_talks _ rfl ((Hush.closing _).talks ((Hush.emit c₁ rfl).talks h₁))

theorem createDeflate_hush (env : Env σ δ) (p : DeflateParams) (c : Conn σ δ) : Hush c (createDeflate env p c).2 := by
  obtain ⟨ok, d, hd, -⟩ := createDeflate_spec env p c
  rw [hd]
  exact ⟨⟨[.alloc ok], rfl, by simp [Event.hushed, Event.closeTaken, Event.dataOut]⟩, .inl rfl,
    .inl rfl, .inl⟩

theorem Hush.unsent {c c' : Conn σ δ} (h : Hush c c') (hu : Unsent c) : Unsent c' :=
  hu.imp (Trace.Somewhere.mono h.prefix_log)
    fun ⟨hp, hn⟩ => ⟨h.parting hp, fun hout => hn (h.closedOut.mp hout)⟩

theorem serverEstablish_talks (key : Bytes) (skip : Nat) (deflateOffered clientNct : Bool)
    {c : Conn σ δ} (h : Unsent c) :
    Talks (serverEstablish env key skip deflateOffered clientNct c) := by
  have h₁ : ∀ (confirm : Bool) (p : DeflateParams),
      Unsent (if confirm = true then createDeflate env p c else (false, c)).2 := by
    intro confirm p
    split
    · exact (createDeflate_hush env p c).unsent h
    · exact h
  have h₁ := h₁ (env.enableDeflate && deflateOffered)
    { DeflateParams.zero with
      clientNoContextTakeover := clientNct, compressionLevel := env.deflateLevel }
  unfold serverEstablish
  dsimp only
  generalize (if (env.enableDeflate && deflateOffered) = true then
      createDeflate env
        { DeflateParams.zero with
          clientNoContextTakeover := clientNct, compressionLevel := env.deflateLevel } c
      else (false, c)) = r at h₁ ⊢
  split
  · exact (talks_upheld env).fatal _ h₁.talks
  rename_i resp _
  have h₂ : Talks (streamWrite env (notify env) (.upgradeOut resp) r.2).2 :=
    reply_talks (fun _ => rfl) h₁.talks
  split
  · exact (talks_upheld env).fatal _ h₂
  · exact openUp_talks skip h₂ (reply_unsent (fun _ => rfl) h₁)

theorem handshakeDataServer_talks {c : Conn σ δ} (h : Unsent c) :
    Talks (handshakeDataServer env c) := by
  unfold handshakeDataServer
  dsimp only
  split
  · exact h.talks
  split
  · exact serverHandshakeFail_talks _ h.talks
  · exact serverEstablish_talks _ _ _ _ h

theorem redirect_talks (location : Bytes) {c : Conn σ δ} (h : Unsent c) (hg : c.gone = false) :
    Talks (redirect env location c) := by
  have hd : c.destroyed = false := (Bool.or_eq_false_iff.mp hg).1
  unfold redirect
  split
  · exact (talks_upheld env).fatal _ h.talks
  split
  · exact (talks_upheld env).fatal _ h.talks
  extract_lets c₁
  have h₁ : Unsent (redirectReconnect env c₁).2 := by
    refine h.grow [.streamClose, .state .connecting,
      .streamOpen c₁.host c₁.port (redirectReconnect env c₁).1] ?_ ?_ fun hdes => ?_
    · simp [redirectReconnect, closeSocket, setState, c₁]
    · simp [Event.hushed, Event.closeTaken, Event.dataOut]
    · simp [redirectReconnect, closeSocket, setState, c₁, hd] at hdes
  dsimp only
  split
  · exact h₁.talks
  · exact (talks_upheld env).fatal _ h₁.talks

theorem negotiate_talks (env : Env σ δ) (extensions : Bytes) {c : Conn σ δ} (h : Unsent c) :
    Talks (negotiate env extensions c).2 ∧
      ((negotiate env extensions c).1 = true → Unsent (negotiate env extensions c).2) := by
  have hfatal := (talks_upheld env).fatal Err.wsProtocol h.talks
  unfold negotiate
  split
  · split
    · exact ⟨hfatal, nofun⟩
    split
    · exact ⟨hfatal, nofun⟩
    · extract_lets p
      have hu := (createDeflate_hush env p c).unsent h
      exact ⟨hu.talks, fun _ => hu⟩
  · exact ⟨h.talks, fun _ => h⟩

theorem clientEstablish_talks (ret : Nat) (resp : HandshakeResponse) {c : Conn σ δ} (h : Unsent c) :
    Talks (clientEstablish env ret resp c) := by
  unfold clientEstablish
  split
  · exact (talks_upheld env).fatal _ h.talks
  obtain ⟨hneg, hopen⟩ := negotiate_talks env resp.extensions h
  dsimp only
  split
  · exact hneg
  · rename_i hok
    exact openUp_talks ret hneg (.inl (hopen (by simpa using hok)))

theorem handshakeDataClient_talks {c : Conn σ δ} (h : Unsent c) (hg : c.gone = false) :
    Talks (handshakeDataClient env c) := by
  unfold handshakeDataClient
  dsimp only
  set c₁ := c.emit (.response c.recv)
  have h₁ : Unsent c₁ := (Hush.emit c rfl).unsent h
  split
  · exact h.talks
  split
  · exact (talks_upheld env).fatal _ (callback_talks _ rfl h.talks)
  split
  · exact redirect_talks _ h₁ hg
  split
  · split
    · have h₂ : Talks (callback env env.onHttpResponse (.onHttpResponse (parseResponse c.recv).2.statusCode
          (c₁.recv.take (parseResponse c.recv).1.toNat) (c₁.recv.drop (parseResponse c.recv).1.toNat)) c₁) :=
        callback_talks _ rfl h₁.talks
      split
      · exact h₂
      · exact enterClosed_talks (fun m c hc => notify_talks m hc) 0 [] h₂.toSays fun _ => h₂
    · exact clientEstablish_talks _ _ h₁
  split
  · exact (talks_upheld env).fatal _ h₁.talks
  · exact clientEstablish_talks _ _ h₁

theorem onStreamOpen_talks {c : Conn σ δ} (h : Unsent c) (hs : c.stream = .opening) :
    Talks (onStreamOpen env { c with stream := .opened }) := by
  have hgrow : ∀ (c' : Conn σ δ) (l : List Event), c'.log = c.log ++ l →
      (∀ e ∈ l, e.hushed = true) → c'.destroyed = c.destroyed → Unsent c' := by
    intro c' l hlog hl hd
    rcases h with hclash | hu
    · exact .inl (hclash.mono (hlog ▸ List.prefix_append _ _))
    · refine Unsent.grow (.inr hu) l hlog hl fun hdes => ?_
      simp [hu.1.idle (hd ▸ hdes)] at hs
  have hstate : ∀ e ∈ [Event.state .handshake], e.hushed = true := by
    simp [Event.hushed, Event.closeTaken, Event.dataOut]
  unfold onStreamOpen
  split
  · exact (hgrow (setState { c with stream := .opened } .handshake) [.state .handshake] rfl hstate
      rfl).talks
  extract_lets key c₁
  split
  · exact (talks_upheld env).fatal _ (hgrow c₁ [] (by simp [c₁]) nofun rfl).talks
  rename_i req _
  have h₂ : Talks (streamWrite env (notify env) (.requestOut key req) (c₁.setState .handshake)).2 :=
    reply_talks (fun _ => rfl) (hgrow (c₁.setState .handshake) [.state .handshake] rfl hstate rfl).talks
  dsimp only
  split
  · exact (talks_upheld env).fatal _ h₂
  · exact h₂

-- ---- runs ----

theorem step_talks (i : Input) {c : Conn σ δ} (h : Talks c) : Talks (step env c i) := by
  have hn : ∀ m (c : Conn σ δ), Talks c → Talks (notify env m c) := fun m c hc => notify_talks m hc
  have hidle : Hush c { c with stream := .idle } := ⟨⟨[], by simp, nofun⟩, .inr rfl, .inl rfl, .inl⟩
  cases i with
  | streamOpened =>
      simp only [step]
      split
      · exact onStreamOpen_talks (h.unsent (by tauto)) ‹_›
      · exact h
  | data d =>
      simp only [step]
      split
      · unfold onData
        split
        · exact h
        rename_i hg
        split
        · exact (talks_upheld env).fatal _ h
        extract_lets c₁
        have h₁ : Talks c₁ := (Hush.store rfl : Hush c c₁).talks h
        have hg₁ : c₁.gone = false := eq_false_of_ne_true hg
        split
        · rename_i hhand
          have hu : Unsent c₁ := h₁.unsent (.inr (.inl hhand))
          unfold handshakeData
          split
          · exact handshakeDataClient_talks hu hg₁
          · exact handshakeDataServer_talks hu
        · exact (talks_upheld env).frameData h₁
      · exact h
  | streamClosed =>
      simp only [step]
      split
      · exact settle_talks hn (.torn true) (hidle.talks h)
      · exact h
  | streamFailed err =>
      simp only [step]
      split
      · exact settle_talks hn (.failed err) (hidle.talks h)
      · exact h
  | pingTick =>
      simp only [step, onPingTimer]
      split
      · split
        · exact h
        · exact sendFrameRaw_talks hn Opcode.ping (by decide) (.null 0) false h
      · exact h
  | call a => exact call_talks hn a h

theorem Entry.talks {c : Conn σ δ} (h : Entry env c) : Talks c := by
  have hnew : ∀ c : Conn σ δ, c.log = [] → c.destroyed = false → Unsent c := by
    intro c hlog hd
    have hout : ¬ ClosedOut c.log := by
      rw [hlog]
      rintro ⟨e, he, -⟩
      cases he
    refine .inr ⟨⟨⟨?_, fun h => absurd h hout, fun hdes => by simp [hd] at hdes⟩,
      fun h => absurd h hout⟩, hout⟩
    rw [hlog]
    exact ⟨Nat.zero_le 1, Trace.atEach_nil _⟩
  cases h with
  | start host port path seed => exact (hnew _ rfl rfl).talks
  | upgrade recv seed hserver hfit => exact handshakeDataServer_talks (hnew _ rfl rfl)

theorem run_talks (inputs : List Input) {c : Conn σ δ} (h : Talks c) : Talks (run env c inputs) := by
  unfold run
  induction inputs generalizing c with
  | nil => exact h
  | cons i rest ih => exact ih (step_talks i h)

-- In every run in which bad UTF-8 is not answered in CLOSING.
theorem close_discipline (env : Env σ δ) {c : Conn σ δ} (hentry : Entry env c) (inputs : List Input)
    (hfree : ¬ Clash (run env c inputs).log) : Discipline (run env c inputs).log :=
  ((run_talks inputs hentry.talks).resolve_left hfree).discipline

-- A ping while the connection waits for the answer to its CLOSE.
def shutThenPing : List Input :=
  [.streamOpened, .data sampleRequest, .call (.shutdown 1000 none),
    .call (.sendText (.bytes [0x41])), .data [0x89, 0x80, 0, 0, 0, 0]]

theorem close_discipline_shutdown :
    ClosedOut (run plainServer (start [] 0 [] 1) shutThenPing).log ∧
      Discipline (run plainServer (start [] 0 [] 1) shutThenPing).log := by
  obtain ⟨hout, hclash⟩ : ClosedOut (run plainServer (start [] 0 [] 1) shutThenPing).log ∧
      ¬ Clash (run plainServer (start [] 0 [] 1) shutThenPing).log := by
    rw [shutThenPing, run_openServer, openServer_eq]
    decide
  exact ⟨hout, close_discipline plainServer (.start [] 0 [] 1) _ hclash⟩

-- A TEXT frame that is not UTF-8 comes in CLOSING and is answered with a second CLOSE.
def shutThenText : List Input :=
  [.streamOpened, .data sampleRequest, .call (.shutdown 1000 none),
    .data [0x81, 0x81, 0, 0, 0, 0, 0xFF]]

theorem second_close_frame :
    ¬ Discipline (run plainServer (start [] 0 [] 1) shutThenText).log := by
  have htwice : ((run plainServer (start [] 0 [] 1) shutThenText).log.filter
      Event.closeTaken).length = 2 := by
    rw [shutThenText, run_openServer, openServer_eq]
    decide
  intro h
  have honce := h.once
  omega

end Conn

end Sevent.Ws
