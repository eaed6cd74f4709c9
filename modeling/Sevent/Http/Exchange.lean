import Mathlib.Data.List.Chain
import Sevent.Http.Reparse

-- Requests and responses of one connection in their order.
namespace Sevent.Http

-- ---- marks ----

inductive Mark where
  | dispatched
  | completed
  deriving DecidableEq, Repr

-- A message for the user, or a call of respond or write_end that returns 0.
def Act.mark (env : Env) : Act → Option Mark
  | .dispatch _ _ => some .dispatched
  | .call c (.respond resp) =>
      if ((c.emit (.called (.respond resp))).respond env resp).1 = Err.success then some .completed else none
  | .call c .writeEnd =>
      if ((c.emit (.called .writeEnd)).writeEnd env).1 = Err.success then some .completed else none
  | .call _ _ => none

def marks (env : Env) (acts : List Act) : List Mark := acts.filterMap (Act.mark env)

-- A message first, then a completion, then a message, and so on.
structure Alternating (l : List Mark) : Prop where
  head : ∀ m ∈ l.head?, m = .dispatched
  chain : l.IsChain (· ≠ ·)

def Act.message : Act → Option Msg
  | .dispatch _ m => some m
  | .call _ _ => none

def lastMessage (acts : List Act) : Option Msg := (acts.filterMap Act.message).getLast?

-- keep_alive of the last request
def keepsAlive (acts : List Act) : Bool := (lastMessage acts).any (·.keepAlive)

-- A close call, or the completion of a response that must close the connection.
def Act.closes (env : Env) (before : List Act) (act : Act) : Prop :=
  match act with
  | .call _ .close => True
  | .call _ (.respond resp) =>
      act.mark env = some .completed ∧ (resp.close = true ∨ keepsAlive before = false)
  | .call _ .writeEnd => act.mark env = some .completed ∧ keepsAlive before = false
  | _ => False

-- A close or such a completion is among the acts.
def Ended (env : Env) (acts : List Act) : Prop :=
  ∃ before act after, acts = before ++ act :: after ∧ act.closes env before

-- The same in the log of the connection: REQUEST is entered, a response is completed.
def Event.mark : Event → Option Mark
  | .state _ .request => some .dispatched
  | .completing _ _ => some .completed
  | _ => none

def traced (log : List Event) : List Mark := log.filterMap Event.mark

theorem marks_append (env : Env) (acts : List Act) (act : Act) :
    marks env (acts ++ [act]) = marks env acts ++ (act.mark env).toList := by
  rw [marks, List.filterMap_append, marks]
  cases h : act.mark env with
  | none => rw [List.filterMap_cons_none h, List.filterMap_nil, Option.toList_none]
  | some m => rw [List.filterMap_cons_some h, List.filterMap_nil, Option.toList_some]

theorem keepsAlive_call (acts : List Act) (c : Conn) (a : Api) :
    keepsAlive (acts ++ [.call c a]) = keepsAlive acts := by
  have hnone : Act.message (.call c a) = none := rfl
  rw [keepsAlive, lastMessage, List.filterMap_append, List.filterMap_cons_none hnone, List.filterMap_nil,
    List.append_nil]
  rfl

theorem keepsAlive_dispatch (acts : List Act) (c : Conn) (m : Msg) :
    keepsAlive (acts ++ [.dispatch c m]) = m.keepAlive := by
  have hsome : Act.message (.dispatch c m) = some m := rfl
  rw [keepsAlive, lastMessage, List.filterMap_append, List.filterMap_cons_some hsome, List.filterMap_nil,
    List.getLast?_concat, Option.any_some]

theorem Alternating.concat {l : List Mark} (h : Alternating l) {m : Mark}
    (hlast : l.getLast? = some .dispatched ↔ m = .completed) : Alternating (l ++ [m]) := by
  constructor
  · intro x hx
    cases l with
    | nil =>
        obtain rfl := Option.some.inj hx
        cases m with
        | dispatched => rfl
        | completed => exact absurd (hlast.mpr rfl) nofun
    | cons y l => exact h.head x hx
  · refine List.isChain_append.mpr ⟨h.chain, List.isChain_singleton m, ?_⟩
    intro x hx y hy
    obtain rfl := Option.some.inj hy
    rintro rfl
    cases x with
    | dispatched => cases hlast.mp hx
    | completed => cases (hlast.mpr rfl).symm.trans hx

-- The new act ends the exchange, or an earlier one did.
theorem ended_concat {env : Env} {acts : List Act} {act : Act} :
    Ended env (acts ++ [act]) ↔ Ended env acts ∨ act.closes env acts := by
  constructor
  · rintro ⟨before, x, after, hsplit, hx⟩
    rcases List.eq_nil_or_concat after with rfl | ⟨after, y, rfl⟩
    · obtain ⟨rfl, heq⟩ := List.append_inj' hsplit rfl
      obtain rfl := (List.cons.inj heq).1
      exact .inr hx
    · rw [List.concat_eq_append, ← List.cons_append, ← List.append_assoc] at hsplit
      obtain ⟨hacts, -⟩ := List.append_inj' hsplit rfl
      exact .inl ⟨before, x, after, hacts, hx⟩
  · rintro (⟨before, x, after, rfl, hx⟩ | hx)
    · exact ⟨before, x, after ++ [act], by rw [List.append_assoc, List.cons_append], hx⟩
    · exact ⟨acts, act, [], rfl, hx⟩

-- Nothing is dispatched after such an act.
def Silenced (env : Env) (acts : List Act) : Prop :=
  ∀ before act after, acts = before ++ act :: after → act.closes env before →
    ∀ c m, .dispatch c m ∉ after

theorem Silenced.concat {env : Env} {acts : List Act} {act : Act} (h : Silenced env acts)
    (hact : Ended env acts → act.message = none) : Silenced env (acts ++ [act]) := by
  intro before x after hsplit hx c m hmem
  rcases List.eq_nil_or_concat after with rfl | ⟨after, y, rfl⟩
  · cases hmem
  · rw [List.concat_eq_append, ← List.cons_append, ← List.append_assoc] at hsplit
    obtain ⟨hacts, hlast⟩ := List.append_inj' hsplit rfl
    rw [List.concat_eq_append] at hmem
    rcases List.mem_append.mp hmem with hmem | hmem
    · exact h before x after hacts hx c m hmem
    · have hnone := hact ⟨before, x, after, hacts, hx⟩
      rw [(List.cons.inj hlast).1, ← List.mem_singleton.mp hmem] at hnone
      cases hnone

theorem traced_append (log : List Event) (e : Event) : traced (log ++ [e]) = traced log ++ e.mark.toList := by
  rw [traced, List.filterMap_append, traced]
  cases h : e.mark with
  | none => rw [List.filterMap_cons_none h, List.filterMap_nil, Option.toList_none]
  | some m => rw [List.filterMap_cons_some h, List.filterMap_nil, Option.toList_some]

theorem traced_unmarked (log : List Event) {e : Event} (h : e.mark = none) : traced (log ++ [e]) = traced log := by
  rw [traced_append, h]
  exact List.append_nil _

theorem Event.quiet.unmarked {e : Event} (h : e.quiet = true) : e.mark = none := by
  cases e with
  | state old next =>
      cases next with
      | request => exact absurd (Bool.and_eq_true_iff.mp h).2 (by decide)
      | _ => rfl
  | completing s p => cases h
  | _ => rfl

theorem Level.traced {c d : Conn} (h : Level c d) : Http.traced d.log = Http.traced c.log := by
  obtain ⟨es, hlog, hes⟩ := h.adds
  have hnone : es.filterMap Event.mark = [] :=
    List.filterMap_eq_nil_iff.mpr fun e he => Event.quiet.unmarked (hes e he)
  rw [hlog, Http.traced, List.filterMap_append, hnone, List.append_nil, Http.traced]

theorem closeGraceful_traced (c : Conn) : traced c.closeGraceful.log = traced c.log := by
  have hset : traced (c.stateSet .closing).log = traced c.log := traced_unmarked c.log rfl
  unfold Conn.closeGraceful
  dsimp only
  split
  · rfl
  split
  · exact (traced_unmarked (c.stateSet .closing).log rfl).trans hset
  · exact hset

-- ---- one call ----

theorem closeGraceful_keeps (c : Conn) : c.closeGraceful.reqKeepAlive = c.reqKeepAlive := by
  unfold Conn.closeGraceful
  dsimp only
  split
  · rfl
  · split <;> rfl

-- A completion leaves no request behind, and closes the connection when it has to.
structure Done (c d : Conn) (must : Prop) : Prop where
  idle : ¬ d.busy
  dying : must → d.dying = true
  keep : d.reqKeepAlive = c.reqKeepAlive
  traced : Http.traced d.log = Http.traced c.log ++ [.completed]

-- Anything else leaves the connection as busy as it was, or closes it.
def Steady (c d : Conn) : Prop := d.dying = true ∨ c.dying = false ∧ (d.busy ↔ c.busy)

theorem Steady.of_state {c d : Conn} (hstate : d.state = c.state) : Steady c d := by
  have hsame : d.dying = c.dying := by rw [Conn.dying, hstate, Conn.dying]
  cases hd : c.dying with
  | true => exact .inl (hsame.trans hd)
  | false => exact .inr ⟨hd, Conn.busy_congr hstate⟩

structure Other (c d : Conn) : Prop where
  steady : Steady c d
  keep : d.reqKeepAlive = c.reqKeepAlive
  traced : Http.traced d.log = Http.traced c.log

theorem Other.refl (c : Conn) : Other c c := ⟨.of_state rfl, rfl, rfl⟩

theorem Other.of_level {c d : Conn} (h : Level c d) (hstate : d.state = c.state) : Other c d :=
  ⟨.of_state hstate, h.reqKeepAlive, h.traced⟩

theorem Other.closeGraceful (c : Conn) : Other c c.closeGraceful :=
  ⟨.inl (dying_closeGraceful c), closeGraceful_keeps c, closeGraceful_traced c⟩

theorem responseComplete_done (env : Env) (c : Conn) (wasAsync : Bool) :
    Done c (c.responseComplete env wasAsync) (c.closePending = true) := by
  have hidle : ∀ d : Conn, ¬ d.closeGraceful.busy := fun d hb =>
    absurd (hb.notDying.symm.trans (dying_closeGraceful d)) (by decide)
  have hnoted : traced (c.emit (.completing c.state c.closePending)).log = traced c.log ++ [.completed] :=
    traced_append c.log _
  have hparsing : traced ((c.emit (.completing c.state c.closePending)).stateSet .parsing).log =
      traced c.log ++ [.completed] := (traced_unmarked _ rfl).trans hnoted
  unfold Conn.responseComplete
  dsimp only
  split
  · exact ⟨hidle _, fun _ => dying_closeGraceful _, closeGraceful_keeps _, (closeGraceful_traced _).trans hnoted⟩
  rename_i hopen
  have hopen : ¬ c.closePending = true := hopen
  have hlevel := Level.idleReset env ((c.emit (.completing c.state c.closePending)).stateSet .parsing)
  have hstate := idleReset_state env ((c.emit (.completing c.state c.closePending)).stateSet .parsing)
  generalize ((c.emit (.completing c.state c.closePending)).stateSet .parsing).idleReset env = d at hlevel hstate ⊢
  have htraced := hlevel.traced.trans hparsing
  split
  · have hpost := Level.post env d .process
    split
    · exact ⟨Conn.not_busy hstate rfl, fun hp => absurd hp hopen, hlevel.reqKeepAlive, hpost.traced.trans htraced⟩
    · exact ⟨hidle _, fun _ => dying_closeGraceful _, (closeGraceful_keeps _).trans hlevel.reqKeepAlive,
        (closeGraceful_traced _).trans (hpost.traced.trans htraced)⟩
  · exact ⟨Conn.not_busy hstate rfl, fun hp => absurd hp hopen, hlevel.reqKeepAlive, htraced⟩

section

-- Writes on the stream succeed.
variable {env : Env} (hwrite : ∀ log, env.write log = .ok) {c : Conn}

include hwrite in
-- A response is completed, or it is as if it had not been tried.
theorem respond_outcome (resp : Response) :
    (c.respond env resp).1 = Err.success ∧ c.busy ∧
        Done c (c.respond env resp).2 (resp.close = true ∨ c.reqKeepAlive = false) ∨
      (c.respond env resp).1 ≠ Err.success ∧ Other c (c.respond env resp).2 := by
  have hfailed : Err.inval ≠ Err.success := by decide
  unfold Conn.respond
  split
  · exact .inr ⟨hfailed, .refl c⟩
  rename_i hstate
  have hbusy : c.busy := by
    unfold Conn.busy
    tauto
  split
  · exact .inr ⟨hfailed, .refl c⟩
  have hlevel := Level.respondBuild env c resp false
  have hsame := (untouched_respondBuild hwrite c resp false).2
  obtain ⟨rc, close, d, hbuild⟩ : ∃ rc close d, c.respondBuild env resp false = (rc, close, d) := ⟨_, _, _, rfl⟩
  rw [hbuild] at hlevel hsame ⊢
  dsimp only
  split
  · exact .inr ⟨‹_›, .of_level hlevel hsame⟩
  rename_i hrc
  rw [not_not.mp hrc] at hbuild
  have hclose := (respondBuild_queued hbuild).1
  have hdone := responseComplete_done env
    { d with closePending := d.closePending || close } (d.state == ConnState.awaitResp)
  have htraced : traced { d with closePending := d.closePending || close }.log = traced c.log := hlevel.traced
  refine .inl ⟨rfl, hbusy, hdone.idle, fun hmust => hdone.dying ?_, hdone.keep.trans hlevel.reqKeepAlive, ?_⟩
  · show (d.closePending || close) = true
    rw [hclose]
    rcases hmust with hmust | hmust
    · rw [hmust, Bool.true_or, Bool.or_true]
    · rw [hmust, Bool.not_false, Bool.or_true, Bool.or_true]
  · rw [← htraced]
    exact hdone.traced

theorem writeEnd_outcome (env : Env) (h : Orderly c) :
    (c.writeEnd env).1 = Err.success ∧ c.busy ∧ Done c (c.writeEnd env).2 (c.reqKeepAlive = false) ∨
      (c.writeEnd env).1 ≠ Err.success ∧ Other c (c.writeEnd env).2 := by
  have hfailed : Err.inval ≠ Err.success := by decide
  unfold Conn.writeEnd
  split
  · exact .inr ⟨hfailed, .refl c⟩
  rename_i hstate
  have hbusy : c.busy := by
    unfold Conn.busy
    tauto
  have hdone := responseComplete_done env c (c.state == ConnState.responding)
  refine .inl ⟨rfl, hbusy, hdone.idle, fun hmust => hdone.dying ?_, hdone.keep, hdone.traced⟩
  rw [h.request hbusy, hmust]
  rfl

include hwrite in
theorem write_other (data : Option Bytes) : Other c (c.write env data).2 := by
  unfold Conn.write
  cases data with
  | none => exact .refl c
  | some data =>
  dsimp only
  split
  · exact .refl c
  rename_i hstate
  have hbusy : c.busy := by
    unfold Conn.busy
    tauto
  split
  · exact .refl c
  have hsame := (untouched_streamWrite hwrite c data).2
  have hlevel := Level.streamWrite env c data
  generalize c.streamWrite env data = w at hsame hlevel ⊢
  split
  · exact .of_level hlevel hsame
  split
  · have hresponding : ({ w.2 with wrote := true }.stateSet .responding).busy := .inr (.inr rfl)
    have htraced : traced ({ w.2 with wrote := true }.stateSet .responding).log = traced w.2.log :=
      traced_unmarked _ rfl
    exact ⟨.inr ⟨hbusy.notDying, iff_of_true hresponding hbusy⟩, hlevel.reqKeepAlive, htraced.trans hlevel.traced⟩
  · exact ⟨.of_state hsame, hlevel.reqKeepAlive, hlevel.traced⟩

theorem close_other (c : Conn) : Other c c.close ∧ c.close.dying = true := by
  have hclosed := Other.closeGraceful { c with closePending := true }
  unfold Conn.close
  split
  · exact ⟨.refl c, ‹_›⟩
  · exact ⟨⟨.inl (dying_closeGraceful _), hclosed.keep, hclosed.traced⟩, dying_closeGraceful _⟩

theorem release_other (c : Conn) : Other c c.release.2 := by
  unfold Conn.release
  split
  · exact .refl c
  split
  · exact .refl c
  · have hlevel := Level.idleStop ({ c with released := true }.stateSet .released)
    have hstate : ({ c with released := true }.stateSet .released).idleStop.state = .released := idleStop_state _
    have hset : traced ({ c with released := true }.stateSet .released).log = traced c.log :=
      traced_unmarked c.log rfl
    refine ⟨.inl ?_, hlevel.reqKeepAlive, hlevel.traced.trans hset⟩
    show ({ c with released := true }.stateSet .released).idleStop.dying = true
    rw [Conn.dying, hstate]
    rfl

end

-- ---- the account of a connection ----

structure Account (env : Env) (acts : List Act) (c : Conn) : Prop where
  traced : Http.traced c.log = marks env acts
  alternating : Alternating (marks env acts)
  pending : c.dying = false → ((marks env acts).getLast? = some .dispatched ↔ c.busy)
  keep : c.reqKeepAlive = keepsAlive acts
  ended : Ended env acts → c.dying = true
  silenced : Silenced env acts
  parsing : ∀ d m, .dispatch d m ∈ acts → d.state = .parsing

namespace Account

variable {env : Env} {acts : List Act} {c d : Conn}

-- A moment without a call or a message.
theorem other (h : Account env acts c) (ho : Other c d) : Account env acts d where
  traced := ho.traced.trans h.traced
  alternating := h.alternating
  pending := fun hd => by
    rcases ho.steady with hdying | ⟨hopen, hbusy⟩
    · exact absurd (hd.symm.trans hdying) (by decide)
    · exact (h.pending hopen).trans hbusy.symm
  keep := ho.keep.trans h.keep
  ended := fun hended => by
    rcases ho.steady with hdying | ⟨hopen, -⟩
    · exact hdying
    · exact absurd (hopen.symm.trans (h.ended hended)) (by decide)
  silenced := h.silenced
  parsing := h.parsing

theorem level (h : Account env acts c) (hl : Level c d) : Account env acts d := by
  rcases hl.state with hs | ⟨-, hs⟩
  · exact h.other (.of_level hl hs)
  · refine h.other ⟨.inl ?_, hl.reqKeepAlive, hl.traced⟩
    rw [Conn.dying, hs]
    rfl

theorem internal (status : Int) (h : Account env acts c) : Account env acts (c.respondInternal env status true) := by
  have hlevel := Level.respondBuild env c
    { status := status, text := none, close := false, body := none, bodyLen := 0, headers := [] } true
  unfold Conn.respondInternal
  split
  · exact h
  dsimp only
  generalize c.respondBuild env
    { status := status, text := none, close := false, body := none, bodyLen := 0, headers := [] } true = r at hlevel ⊢
  split
  · exact h.level hlevel
  · have hflag : Level r.2.2 { r.2.2 with closePending := r.2.2.closePending } := .refl r.2.2
    have hclosed := Other.closeGraceful { r.2.2 with closePending := true }
    exact h.other ⟨.inl (dying_closeGraceful _), hclosed.keep.trans hlevel.reqKeepAlive,
      hclosed.traced.trans hlevel.traced⟩

-- The next message.
theorem dispatch (h : Account env acts c) (hstate : c.state = .parsing) (m : Msg) :
    Account env (acts ++ [.dispatch c m]) (c.begin m) := by
  have hopen : c.dying = false := by
    rw [Conn.dying, hstate]
    rfl
  have hlast : ¬ (marks env acts).getLast? = some .dispatched := fun hlast =>
    Conn.not_busy hstate rfl ((h.pending hopen).mp hlast)
  have hmarks : marks env (acts ++ [.dispatch c m]) = marks env acts ++ [.dispatched] := marks_append env acts _
  have hnot : ¬ Ended env acts := fun hended => absurd (hopen.symm.trans (h.ended hended)) (by decide)
  constructor
  · rw [hmarks, ← h.traced]
    exact traced_append c.log _
  · rw [hmarks]
    exact h.alternating.concat (iff_of_false hlast fun hm => by cases hm)
  · intro _
    rw [hmarks, List.getLast?_concat]
    exact iff_of_true rfl (.inl rfl)
  · exact (keepsAlive_dispatch acts c m).symm
  · intro hended
    exact absurd ((ended_concat.mp hended).resolve_left hnot) id
  · exact h.silenced.concat fun hended => absurd hended hnot
  · intro d m' hmem
    rcases List.mem_append.mp hmem with hmem | hmem
    · exact h.parsing d m' hmem
    · have heq := List.mem_singleton.mp hmem
      rw [Act.dispatch.injEq] at heq
      rw [heq.1]
      exact hstate

theorem parsing_call (h : Account env acts c) (a : Api) :
    ∀ d m, .dispatch d m ∈ acts ++ [.call c a] → d.state = .parsing := by
  intro d m hmem
  rcases List.mem_append.mp hmem with hmem | hmem
  · exact h.parsing d m hmem
  · cases List.mem_singleton.mp hmem

-- A call that is no completion.
theorem called (h : Account env acts c) {a : Api} (hmark : Act.mark env (.call c a) = none) (ho : Other c d)
    (hcloses : Act.closes env acts (.call c a) → d.dying = true) : Account env (acts ++ [.call c a]) d := by
  have hmarks : marks env (acts ++ [.call c a]) = marks env acts := by
    rw [marks_append, hmark]
    exact List.append_nil _
  have hstill := h.other ho
  constructor
  · rw [hmarks]
    exact hstill.traced
  · rw [hmarks]
    exact h.alternating
  · rw [hmarks]
    exact hstill.pending
  · exact hstill.keep.trans (keepsAlive_call acts c a).symm
  · intro hended
    rcases ended_concat.mp hended with hended | hlast
    · exact hstill.ended hended
    · exact hcloses hlast
  · exact h.silenced.concat fun _ => rfl
  · exact h.parsing_call a

-- A call that completes a response.
theorem completed (h : Account env acts c) {a : Api} {must : Prop}
    (hmark : Act.mark env (.call c a) = some .completed) (hbusy : c.busy) (hd : Done c d must)
    (hcloses : Act.closes env acts (.call c a) → must) : Account env (acts ++ [.call c a]) d := by
  have hmarks : marks env (acts ++ [.call c a]) = marks env acts ++ [.completed] := by
    rw [marks_append, hmark]
    rfl
  have hopen := hbusy.notDying
  constructor
  · rw [hmarks, ← h.traced]
    exact hd.traced
  · rw [hmarks]
    exact h.alternating.concat (iff_of_true ((h.pending hopen).mpr hbusy) rfl)
  · intro _
    rw [hmarks, List.getLast?_concat]
    exact iff_of_false (fun hm => by cases Option.some.inj hm) hd.idle
  · exact hd.keep.trans (h.keep.trans (keepsAlive_call acts c a).symm)
  · intro hended
    rcases ended_concat.mp hended with hended | hlast
    · exact absurd (hopen.symm.trans (h.ended hended)) (by decide)
    · exact hd.dying (hcloses hlast)
  · exact h.silenced.concat fun _ => rfl
  · exact h.parsing_call a

-- Every call of the user, as it is logged.
theorem call (h : Account env acts c) (hwrite : ∀ log, env.write log = .ok) (horderly : Orderly c) (a : Api) :
    Account env (acts ++ [.call c a]) (c.call env a) := by
  have hcalled : Level c (c.emit (.called a)) := .emit c rfl
  have hafter : ∀ {d : Conn} (rc : Int), Level d (d.emit (.returned rc)) := fun rc => .emit _ rfl
  have hother : ∀ {d : Conn} (rc : Int), Other (c.emit (.called a)) d → Other c (d.emit (.returned rc)) :=
    fun rc ho => ⟨ho.steady, ho.keep, (hafter rc).traced.trans (ho.traced.trans hcalled.traced)⟩
  have hdone : ∀ {d : Conn} {must : Prop} (rc : Int), Done (c.emit (.called a)) d must →
      Done c (d.emit (.returned rc)) must := fun rc hd =>
    ⟨hd.idle, hd.dying, hd.keep, (hafter rc).traced.trans (hd.traced.trans (hcalled.traced ▸ rfl))⟩
  cases a with
  | respond resp =>
      rcases respond_outcome hwrite (c := c.emit (.called (.respond resp))) resp with ⟨hrc, hbusy, hd⟩ | ⟨hrc, ho⟩
      · refine h.completed (if_pos hrc) hbusy (hdone _ hd) fun hcloses => ?_
        exact hcloses.2.imp_right h.keep.trans
      · have hmark : Act.mark env (.call c (.respond resp)) = none := if_neg hrc
        refine h.called hmark (hother _ ho) fun hcloses => ?_
        cases hmark.symm.trans hcloses.1
  | writeEnd =>
      rcases writeEnd_outcome env (horderly.level hcalled) with ⟨hrc, hbusy, hd⟩ | ⟨hrc, ho⟩
      · exact h.completed (if_pos hrc) hbusy (hdone _ hd) fun hcloses => h.keep.trans hcloses.2
      · have hmark : Act.mark env (.call c .writeEnd) = none := if_neg hrc
        refine h.called hmark (hother _ ho) fun hcloses => ?_
        cases hmark.symm.trans hcloses.1
  | write data => exact h.called rfl (hother _ (write_other hwrite data)) fun hcloses => hcloses.elim
  | close => exact h.called rfl (hother _ (close_other _).1) fun _ => (close_other _).2
  | release => exact h.called rfl (hother _ (release_other _)) fun hcloses => hcloses.elim

end Account

-- ---- over whole runs ----

theorem Course.account {env : Env} (hwrite : ∀ log, env.write log = .ok) {recvCap : Nat} {acts : List Act} {c : Conn}
    (h : Course env recvCap acts c) : Account env acts c := by
  induction h with
  | accepted =>
      have hnone : ∀ act : Act, act ∉ ([] : List Act) := fun _ => List.not_mem_nil
      have hnever : ¬ Ended env [] := fun hended => by
        obtain ⟨before, act, after, hsplit, -⟩ := hended
        exact hnone act (hsplit ▸ List.mem_append_right before List.mem_cons_self)
      refine ⟨rfl, ⟨fun _ hm => absurd hm nofun, .nil⟩, fun _ => iff_of_false (fun hm => by cases hm) ?_, rfl,
        fun hended => absurd hended hnever, fun before act after hsplit hcloses => ?_, fun _ _ hd => absurd hd (hnone _)⟩
      · exact Conn.not_busy rfl rfl
      · exact absurd ⟨before, act, after, hsplit, hcloses⟩ hnever
  | call a hcourse ih => exact ih.call hwrite hcourse.orderly a
  | onAccept _ _ ih => exact ih.level (.emit _ rfl)
  | @opened _ c hnew _ ih =>
      have hidle : ¬ c.busy := Conn.not_busy hnew rfl
      have hopen : c.dying = false := by
        rw [Conn.dying, hnew]
        rfl
      have hset : Other c (c.stateSet .parsing) :=
        ⟨.inr ⟨hopen, iff_of_false (Conn.not_busy rfl rfl) hidle⟩, rfl, traced_unmarked c.log rfl⟩
      exact (ih.other hset).level (.idleReset env _)
  | onRequest hstate _ _ _ _ ih => exact (ih.dispatch hstate _).level (.emit _ rfl)
  | onUpgrade hstate _ _ _ _ ih => exact (ih.dispatch hstate _).level (.emit _ rfl)
  | unheard hstate _ _ _ _ ih => exact ih.dispatch hstate _
  | declined hstate _ _ _ _ ih => exact (ih.dispatch hstate _).internal 400
  | internal status _ _ ih => exact ih.internal status
  | @settled _ c hstate _ ih =>
      have hbusy : c.busy := .inl hstate
      have hset : Other c (c.stateSet (if c.wrote then .responding else .awaitResp)) := by
        cases c.wrote with
        | true => exact ⟨.inr ⟨hbusy.notDying, iff_of_true (.inr (.inr rfl)) hbusy⟩, rfl, traced_unmarked c.log rfl⟩
        | false => exact ⟨.inr ⟨hbusy.notDying, iff_of_true (.inr (.inl rfl)) hbusy⟩, rfl, traced_unmarked c.log rfl⟩
      exact (ih.other hset).level (.idleReset env _)
  | recv b _ ih => exact ih.level (.still rfl rfl rfl rfl rfl)
  | idleStop _ ih => exact ih.level (.idleStop _)
  | idleReset _ ih => exact ih.level (.idleReset env _)
  | post _ ih => exact ih.level (.post env _ .process)
  | popped _ _ ih => exact ih.level (.still rfl rfl rfl rfl rfl)
  | closeGraceful _ ih => exact ih.other (.closeGraceful _)
  | terminate _ ih => exact ih.level (.terminate env _)
  | cleanup _ ih => exact ih.level (.noted rfl rfl rfl rfl rfl rfl)

-- At every moment of every run: requests are taken up while PARSING, each has one completion
-- before the next, the state says whether it is still due, and nothing follows a close.
theorem one_outstanding {env : Env} (hwrite : ∀ log, env.write log = .ok) (recvCap : Nat) :
    (∀ steps, ∃ acts, Course env recvCap acts ((Conn.accepted recvCap).run env steps)) ∧
      ∀ (acts : List Act) (c : Conn), Course env recvCap acts c →
        traced c.log = marks env acts ∧
        (∀ d m, .dispatch d m ∈ acts → d.state = .parsing) ∧
        Alternating (marks env acts) ∧
        (c.dying = false → ((marks env acts).getLast? = some .dispatched ↔ c.busy)) ∧
        Silenced env acts := by
  refine ⟨Reached.run env recvCap, fun acts c h => ?_⟩
  have haccount := h.account hwrite
  exact ⟨haccount.traced, haccount.parsing, haccount.alternating, haccount.pending, haccount.silenced⟩

-- Two requests at once; the first one is answered after its callback, and then the second is
-- taken up.
def pipelined : List Step :=
  [.opened, .data (ascii "GET / HTTP/1.1\r\n\r\nGET / HTTP/1.1\r\n\r\n"), .call (.respond okResponse), .post]

theorem one_outstanding_silent :
    (∀ log, silent.write log = .ok) ∧ Alternating (traced ((Conn.accepted 64).run silent pipelined).log) ∧
      traced ((Conn.accepted 64).run silent pipelined).log = [.dispatched, .completed, .dispatched] := by
  have hwrite : ∀ log, silent.write log = .ok := fun _ => rfl
  obtain ⟨hruns, hall⟩ := one_outstanding hwrite 64
  obtain ⟨acts, hcourse⟩ := hruns pipelined
  obtain ⟨htraced, -, halternating, -⟩ := hall acts _ hcourse
  exact ⟨hwrite, htraced ▸ halternating, by decide +kernel⟩

end Sevent.Http
