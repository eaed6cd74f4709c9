import Sevent.Ws.Reassembly
import Sevent.Ws.Steps

-- Uncompressed BINARY messages: what on_message is given between two fin callbacks.
namespace Sevent.Ws

variable {σ δ : Type}

open Conn

-- A large frame goes to on_message while frag_buf holds earlier bytes of the message.
def Event.overtakes : Event → Bool
  | .streamFrame .stream fragLen => fragLen != 0
  | _ => false

-- `ms` are the messages that have been sent: whole ones have been heard, and a part of the next.
def Delivers (ms : List Bytes) (r : List Bytes × Bytes) : Prop :=
  ∃ rest, ms = r.1 ++ rest ∧ (r.2 = [] ∨ ∃ m more, rest = m :: more ∧ r.2 <+: m)

theorem heard_unheard {n : Nat} {c c' : Conn σ δ} (hn : n ≤ c.log.length) (h : Unheard c c') :
    n ≤ c'.log.length ∧ heard (c'.log.drop n) = heard (c.log.drop n) := by
  obtain ⟨events, hlog, hs⟩ := h
  rw [hlog, List.drop_append_of_le_length hn, heard, heard, List.foldl_append,
    foldl_hear hs, List.length_append]
  exact ⟨by omega, rfl⟩

theorem heard_message {env : Env σ δ} (hg : env.Gentle) (hm : env.onMessage.isSome = true) {n : Nat}
    (site : Site) (data : Bytes) (isBin fin : Bool) (total : Nat) {c : Conn σ δ}
    (hd : c.destroyed = false) (hn : n ≤ c.log.length) :
    n ≤ (message env site data isBin fin total c).log.length ∧
      heard ((message env site data isBin fin total c).log.drop n) =
        hear (heard (c.log.drop n)) (.onMessage site data isBin fin total) := by
  have hemit : n ≤ (c.emit (.onMessage site data isBin fin total)).log.length := by
    simp only [emit, List.length_append]
    omega
  obtain ⟨hle, heq⟩ := heard_unheard hemit
    (message_aside hg hm site data isBin fin total hd).silent.unheard
  refine ⟨hle, heq.trans ?_⟩
  rw [emit, List.drop_append_of_le_length hn, heard, List.foldl_append]
  rfl

namespace Sink

section

variable {env : Env σ δ} (hg : env.Gentle) (hm : env.onMessage.isSome = true)

-- on_message itself.
def plain (n : Nat) (ms : List Bytes) : Sink env where
  compressed := false
  since := n
  all := ms.map fun m => (m, m)
  Clean log := ∀ e ∈ log.drop n, e.overtakes = false
  Split _ := True
  Holds c done part := n ≤ c.log.length ∧ heard (c.log.drop n) = (done.map Prod.fst, part)
  clean_mono := by
    rintro log _ ⟨more, rfl⟩ h e he
    refine h e ?_
    rw [List.drop_append]
    exact List.mem_append_left _ he
  clean_stream := by
    rintro c done part k ⟨hn, -⟩ h
    have hk := h (.streamFrame .stream k) (by simp [emit, List.drop_append_of_le_length hn])
    simpa [Event.overtakes] using hk
  clean_flush := fun h => by cases h
  clean_first := fun h => by cases h
  clean_large := fun h => by cases h
  keep := by
    rintro c c' done part hs - ⟨hn, h⟩
    obtain ⟨hle, heq⟩ := heard_unheard hn hs
    exact ⟨hle, heq.trans h⟩
  ready := fun h => by cases h
  feed := by
    rintro - c done part hd ⟨hn, h⟩ site data isBin total
    obtain ⟨hle, heq⟩ := heard_message hg hm site data isBin false total hd hn
    exact ⟨hle, heq.trans (by rw [h]; rfl)⟩
  finish := by
    rintro - c done part m rest hd ⟨hn, h⟩ - site data isBin total hm₁
    obtain ⟨hle, heq⟩ := heard_message hg hm site data isBin true total hd hn
    refine ⟨hle, heq.trans ?_⟩
    rw [h, List.map_append, List.map_singleton, hm₁]
    rfl
  chunk := fun h => by cases h
  flush := fun h => by cases h
  oneshot := fun h => by cases h

end

end Sink

namespace Conn

-- In every run on an idle connection in which no large frame overtakes bytes in frag_buf, every
-- message is heard as it was sent, and a connection that is given up has seen a fault.
theorem reassembly_lossless (env : Env σ δ) (hg : env.Gentle) (hm : env.onMessage.isSome = true)
    (hcap : 1024 ≤ env.recvCap) (c : Conn σ δ) (hidle : Idle c) (fs : List WireFrame)
    (hlegal : Legal WireFrame.opensBinary env.isClient false fs) (pushes : List Bytes) (fut : Bytes)
    (hwire : pushes.flatten ++ fut = wire fs) (hsmall : ∀ d ∈ pushes, d.length ≤ env.recvCap / 2)
    (hroute : ∀ e ∈ (run env c (pushes.map .data)).log.drop c.log.length, e.overtakes = false) :
    Delivers (messages [] fs) (heard ((run env c (pushes.map .data)).log.drop c.log.length)) ∧
      ((run env c (pushes.map .data)).state = .closed →
        Faulty c.log.length (run env c (pushes.map .data)).log) ∧
      (fut = [] → (run env c (pushes.map .data)).state ≠ .closed →
        heard ((run env c (pushes.map .data)).log.drop c.log.length) = (messages [] fs, [])) := by
  have hfst : ((messages [] fs).map fun m => (m, m)).map Prod.fst = messages [] fs := by
    simp [List.map_map, Function.comp_def]
  obtain ⟨hright, hfault, hall⟩ := Sink.run_right (S := Sink.plain hg hm c.log.length (messages [] fs))
    hg hm (by omega) hidle ⟨le_rfl, by simp [heard]⟩ rfl hfst hlegal hwire hsmall hcap hroute
  refine ⟨?_, hfault, fun hfut hc => ?_⟩
  · obtain ⟨done, part, rest, ⟨-, hh⟩, hsplit, hpart⟩ := hright
    rw [hh]
    refine ⟨rest.map Prod.fst, ?_, ?_⟩
    · have := congrArg (List.map Prod.fst) hsplit
      rwa [List.map_append, show (Sink.plain hg hm c.log.length (messages [] fs)).all.map Prod.fst =
        messages [] fs from hfst] at this
    · rcases hpart with hnil | ⟨m, more, rfl, hp⟩
      · exact .inl hnil
      · exact .inr ⟨m.1, more.map Prod.fst, rfl, hp⟩
  · obtain ⟨-, hh⟩ := hall hfut hc
    rw [hh]
    exact congrArg (·, []) hfst

-- A frame of a client, of one byte over and over.
def sampleFrame (fin : Bool) (opcode : Fin 16) (len : Fin 1024) (b : Byte) : WireFrame :=
  ⟨fin, false, opcode, some ⟨0x0F, 0x1E, 0x2D, 0x3C⟩, List.replicate len b, opcode.2, by
    rw [List.length_replicate]
    omega⟩

-- Pieces of 500 bytes.
def pieces (b : Bytes) : List Bytes :=
  [b.take 500, (b.drop 500).take 500, (b.drop 1000).take 500]

-- A large frame, a small one that waits in frag_buf, a PING, and a small last one.
def mixedFrames : List WireFrame :=
  [sampleFrame false 2 600 0x41, sampleFrame false 0 3 0x42, sampleFrame true 9 2 0x43,
    sampleFrame true 0 5 0x44]

theorem plainServer_gentle : plainServer.Gentle := by
  constructor <;> (intro script h; cases h; simp)

theorem reassembly_lossless_mixed :
    (run plainServer openServer ((pieces (wire mixedFrames)).map .data)).state ≠ .closed ∧
      heard ((run plainServer openServer ((pieces (wire mixedFrames)).map .data)).log.drop
        openServer.log.length) = (messages [] mixedFrames, []) := by
  obtain ⟨hidle, hlegal, hwire, hsmall, hroute, hopen⟩ :
      Idle openServer ∧ Legal WireFrame.opensBinary plainServer.isClient false mixedFrames ∧
      (pieces (wire mixedFrames)).flatten ++ [] = wire mixedFrames ∧
      (∀ d ∈ pieces (wire mixedFrames), d.length ≤ plainServer.recvCap / 2) ∧
      (∀ e ∈ (run plainServer openServer ((pieces (wire mixedFrames)).map .data)).log.drop
        openServer.log.length, e.overtakes = false) ∧
      (run plainServer openServer ((pieces (wire mixedFrames)).map .data)).state ≠ .closed := by
    rw [openServer_eq]
    decide +kernel
  exact ⟨hopen, (reassembly_lossless plainServer plainServer_gentle rfl (by decide) openServer hidle
    mixedFrames hlegal (pieces (wire mixedFrames)) [] hwire hsmall hroute).2.2 rfl hopen⟩

-- The last frame is large as well: it does not wait for the bytes in frag_buf, and these are lost.
def overtakenFrames : List WireFrame :=
  [sampleFrame false 2 600 0x41, sampleFrame false 0 3 0x42, sampleFrame true 0 600 0x43]

theorem overtaken_bytes_lost :
    Idle openServer ∧ Legal WireFrame.opensBinary plainServer.isClient false overtakenFrames ∧
      (pieces (wire overtakenFrames)).flatten = wire overtakenFrames ∧
      (∀ d ∈ pieces (wire overtakenFrames), d.length ≤ plainServer.recvCap / 2) ∧
      (run plainServer openServer ((pieces (wire overtakenFrames)).map .data)).state = .opened ∧
      (heard ((run plainServer openServer ((pieces (wire overtakenFrames)).map .data)).log.drop
        openServer.log.length)).1 ≠ messages [] overtakenFrames := by
  rw [openServer_eq]
  decide +kernel

end Conn

end Sevent.Ws
