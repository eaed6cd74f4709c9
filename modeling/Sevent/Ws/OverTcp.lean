import Sevent.Tcp.Contract
import Sevent.Ws.Transmit

-- A WebSocket connection over a TCP connection: what the frames become on the socket, and what a peer
-- that reads it hears.
namespace Sevent.Ws

open Sevent.Stream (WriteRes)

variable {σ δ : Type}

open Conn

-- What the log of a connection does to its stream.
def Event.streams : Event → Bool
  | .streamOpen _ _ _ => true
  | .streamClose => true
  | .streamShutdown => true
  | e => e.out.isSome

-- The frames of a log over a TCP connection: `t` has become `t'`. Between two events the loop may
-- write, as long as it has no end to report.
inductive Rides (env : Tcp.Env) : Tcp.Conn → List Event → Tcp.Conn → Prop
  | done (t : Tcp.Conn) : Rides env t [] t
  | ready {t t' : Tcp.Conn} {log : List Event} (hlive : (t.step env .writeReady).Live)
      (h : Rides env (t.step env .writeReady) log t') : Rides env t log t'
  | frame {t t' : Tcp.Conn} {log : List Event} {opcode : Nat} {data : Bytes} {res : WriteRes}
      (hres : res = Tcp.Conn.writeRes (t.write env (.bytes data)))
      (h : Rides env (t.write env (.bytes data)).2 log t') :
      Rides env t (.frameOut opcode data res :: log) t'
  | close {t t' : Tcp.Conn} {log : List Event} (h : Rides env t.close log t') :
      Rides env t (.streamClose :: log) t'
  | beside {t t' : Tcp.Conn} {log : List Event} {e : Event} (he : e.streams = false)
      (h : Rides env t log t') : Rides env t (e :: log) t'

namespace Rides

open Tcp.Conn (Carrying)

variable {env : Tcp.Env} {t t' : Tcp.Conn} {log : List Event} {owed : Bytes}

theorem shipped_beside {e : Event} (he : e.streams = false) (log : List Event) :
    shipped (e :: log) = shipped log := by
  have hnone : e.shipped = none := by
    cases e with
    | frameOut opcode data res => cases he
    | _ => rfl
  exact List.filterMap_cons_none hnone

-- A write on a connection that is over, or of nothing, is not seen on the socket.
theorem write_carrying (hk : env.Kernel) (h : Carrying owed t) (opcode : Nat) (data : Bytes) :
    Carrying (owed ++ (shipped [.frameOut opcode data
      (Tcp.Conn.writeRes (t.write env (.bytes data)))]).flatten) (t.write env (.bytes data)).2 := by
  have hshipped : ∀ res : WriteRes, (shipped [.frameOut opcode data res]).flatten =
      if res = .nomem ∨ res = .inval then [] else data := fun res => by
    cases res <;> simp [shipped, Event.shipped]
  rw [hshipped]
  by_cases hlive : t.Live
  case neg =>
    rw [Tcp.Conn.write_dead hlive]
    have hres : Tcp.Conn.writeRes (Err.inval, t) = .inval := rfl
    rw [hres, if_pos (.inr rfl), List.append_nil]
    exact h
  by_cases hdata : data = []
  · obtain ⟨rc, heq, -, -⟩ := @Tcp.Conn.write_nothing env t (.bytes data)
      (fun b hb => by cases hb; exact hdata)
    rw [heq, hdata, ite_self, List.append_nil]
    exact h
  · have hkept := Tcp.Conn.write_kept hk h hlive hdata
    have hcarrying := hkept.carrying
    have hvalid := hkept.valid
    generalize Tcp.Conn.writeRes (t.write env (.bytes data)) = res at hcarrying hvalid ⊢
    by_cases hnomem : res = .nomem
    · rw [if_pos (.inl hnomem), List.append_nil]
      rwa [if_pos hnomem] at hcarrying
    · rw [if_neg (not_or.mpr ⟨hnomem, hvalid⟩)]
      rwa [if_neg hnomem] at hcarrying

theorem carrying (hk : env.Kernel) (hr : Rides env t log t') (h : Carrying owed t) :
    Carrying (owed ++ (shipped log).flatten) t' := by
  induction hr generalizing owed with
  | done t =>
      rw [show shipped [] = [] from rfl, List.flatten_nil, List.append_nil]
      exact h
  | ready hlive hr ih => exact ih (Tcp.Conn.writeReady_carrying hk h)
  | @frame t t' log opcode data res hres hr ih =>
      have hwrite := write_carrying hk h opcode data
      rw [← hres] at hwrite
      have hsplit := shipped_append [.frameOut opcode data res] log
      rw [List.singleton_append] at hsplit
      rw [hsplit, List.flatten_append, ← List.append_assoc]
      exact ih hwrite
  | @close t t' log hr ih =>
      obtain ⟨hquiet, hdead⟩ := Tcp.Conn.close_beside t
      exact ih (h.beside ⟨hquiet, .inl hdead⟩)
  | beside he hr ih =>
      rw [shipped_beside he]
      exact ih h

theorem turns_carrying (hk : env.Kernel) (turns : Nat) (h : Carrying owed t) :
    Carrying owed (t.run env (List.replicate turns .writeReady)) := by
  induction turns generalizing t with
  | zero => exact h
  | succ turns ih => exact ih (Tcp.Conn.writeReady_carrying hk h)

end Rides

-- The frames of a series of calls go over a TCP connection on which the bytes `owed` were sent or
-- queued before, and the loop goes on writing. What the peer has read is the beginning of what has
-- been sent, so it hears the messages that were accepted, in order and whole, and all of them when
-- it has read all and nothing is queued.
theorem delivered_over_tcp (env : Env σ δ) (c : Conn σ δ) (hu : Uncompressed env c)
    (ho : c.state = .opened) (hd : c.destroyed = false) (calls : List Sending)
    (hproper : ∀ s ∈ calls, s.Proper) (tcp : Tcp.Env) (hk : tcp.Kernel) (t t' : Tcp.Conn)
    (owed : Bytes) (ht : Tcp.Conn.Carrying owed t)
    (hrides : Rides tcp t ((sendAll env c calls).log.drop c.log.length) t') (turns : Nat)
    {σ' δ' : Type} (peer : Env σ' δ') (hrole : peer.isClient = !env.isClient) (hg : peer.Gentle)
    (hm : peer.onMessage.isSome = true) (hcap : 1024 ≤ peer.recvCap) (p : Conn σ' δ')
    (hidle : Idle p) (pushes : List Bytes)
    (hread : owed ++ pushes.flatten <+:
      Tcp.sent (t'.run tcp (List.replicate turns .writeReady)).log)
    (hsmall : ∀ d ∈ pushes, d.length ≤ peer.recvCap / 2) :
    Delivers (offered env c calls)
        (heard ((run peer p (pushes.map .data)).log.drop p.log.length)) ∧
      ((run peer p (pushes.map .data)).state = .closed →
        Faulty p.log.length (run peer p (pushes.map .data)).log) ∧
      (owed ++ pushes.flatten = Tcp.sent (t'.run tcp (List.replicate turns .writeReady)).log →
        (t'.run tcp (List.replicate turns .writeReady)).Live →
        (t'.run tcp (List.replicate turns .writeReady)).queue.head = none →
        (run peer p (pushes.map .data)).state ≠ .closed → (sendAll env c calls).state ≠ .closed →
        heard ((run peer p (pushes.map .data)).log.drop p.log.length) = (offered env c calls, [])) := by
  have hcarried := Rides.turns_carrying hk turns (Rides.carrying hk hrides ht)
  generalize t'.run tcp (List.replicate turns .writeReady) = last at hread hcarried ⊢
  obtain ⟨fut, hfut⟩ := hread.trans hcarried.part
  rw [List.append_assoc] at hfut
  have hwire := List.append_cancel_left hfut
  obtain ⟨hdel, hfault, hall⟩ := delivered_as_sent env c hu ho hd calls hproper peer hrole hg hm hcap p
    hidle pushes fut hwire hsmall
  refine ⟨hdel, hfault, fun hsent hlive hqueue hp hc => hall ?_ hp hc⟩
  -- nothing is queued, so all that is owed has been sent
  obtain ⟨-, l, hdue⟩ := hcarried.due hlive
  have hl : l = [] := (hdue.holds.head_eq_none).mp hqueue
  have hbytes := hdue.bytes
  rw [hl, show Tcp.unsent [] = [] from rfl, List.append_nil, ← hsent] at hbytes
  have hlen := congrArg List.length (hfut.trans hbytes.symm)
  simp only [List.length_append] at hlen
  exact List.eq_nil_of_length_eq_zero (by omega)

-- A log whose frames the connection answers as they were answered, with no turn of the loop between.
def ride (env : Tcp.Env) : Tcp.Conn → List Event → Option Tcp.Conn
  | t, [] => some t
  | t, .frameOut _ data res :: log =>
      if res = Tcp.Conn.writeRes (t.write env (.bytes data)) then
        ride env (t.write env (.bytes data)).2 log
      else none
  | t, .streamClose :: log => ride env t.close log
  | t, e :: log => if e.streams then none else ride env t log

theorem ride_rides {env : Tcp.Env} {log : List Event} {t t' : Tcp.Conn} (h : ride env t log = some t') :
    Rides env t log t' := by
  induction log generalizing t with
  | nil =>
      cases h
      exact .done _
  | cons e log ih =>
      cases e with
      | frameOut opcode data res =>
          simp only [ride] at h
          split_ifs at h with hres
          exact .frame hres (ih h)
      | streamClose => exact .close (ih h)
      | streamOpen host port ok => cases h
      | streamShutdown => cases h
      | requestOut key data res => cases h
      | upgradeOut data res => cases h
      | refusalOut data res => cases h
      | _ => exact .beside rfl (ih h)

-- A socket that takes 300 bytes at a time, and none in between.
def halting : Tcp.Env where
  alloc _ := true
  ioRegister _ := true
  send log data :=
    if log.any Tcp.Event.isFin then .failed
    else
      match log.getLast? with
      | some (.send _ (.wrote _)) => .again
      | _ => .wrote (min data.length 300)

theorem halting_kernel : halting.Kernel := by
  refine ⟨fun log data hdata => ?_, fun log data hfin => ?_⟩
  · have hpos := List.length_pos_iff.mpr hdata
    simp only [halting]
    split_ifs
    · trivial
    · split
      · trivial
      · exact ⟨by omega, Nat.min_le_left _ _⟩
  · have hany : log.any Tcp.Event.isFin = true := by
      by_contra hnone
      refine hfin fun e he => ?_
      have hall := List.any_eq_false.mp (Bool.not_eq_true _ ▸ hnone) e he
      simpa using hall
    exact if_pos hany

theorem delivered_over_tcp_halting :
    ∃ pushes : List Bytes, pushes.length = 3 ∧
      heard ((run plainServer openServer (pushes.map .data)).log.drop openServer.log.length) =
        ([ascii "hi", List.replicate 600 0x41], []) := by
  let events := (sendAll plainClient openClient fourCalls).log.drop openClient.log.length
  let t' := (ride halting (.opened 3) events).getD (.opened 3)
  let pushed := pieces (Tcp.sent (t'.run halting (List.replicate 6 .writeReady)).log)
  obtain ⟨hu, ho, hd, hproper, hidle, hrides, hread, hsmall, hlive, hqueue, hp, hc, hoffered⟩ :
      openClient.deflate = none ∧ openClient.state = .opened ∧ openClient.destroyed = false ∧
      (∀ s ∈ fourCalls, s.Proper) ∧ Idle openServer ∧ (ride halting (.opened 3) events).isSome = true ∧
      [] ++ pushed.flatten = Tcp.sent (t'.run halting (List.replicate 6 .writeReady)).log ∧
      (∀ d ∈ pushed, d.length ≤ plainServer.recvCap / 2) ∧
      (t'.run halting (List.replicate 6 .writeReady)).Live ∧
      (t'.run halting (List.replicate 6 .writeReady)).queue.head = none ∧
      (run plainServer openServer (pushed.map .data)).state ≠ .closed ∧
      (sendAll plainClient openClient fourCalls).state ≠ .closed ∧
      offered plainClient openClient fourCalls = [ascii "hi", List.replicate 600 0x41] := by
    rw [openServer_eq]
    decide +kernel
  have hride : Rides halting (.opened 3) events t' := by
    obtain ⟨t, ht⟩ := Option.isSome_iff_exists.mp hrides
    have ht' : t' = t := by simp only [t', ht, Option.getD_some]
    rw [ht']
    exact ride_rides ht
  refine ⟨pushed, rfl, ?_⟩
  rw [← hoffered]
  exact (delivered_over_tcp plainClient openClient (.inl hu) ho hd fourCalls hproper halting
    halting_kernel (.opened 3) t' [] (Tcp.Conn.opened_carrying 3) hride 6 plainServer rfl
    plainServer_gentle rfl (by decide) openServer hidle pushed ⟨[], by rw [hread, List.append_nil]⟩
    hsmall).2.2 hread hlive hqueue hp hc

end Sevent.Ws
