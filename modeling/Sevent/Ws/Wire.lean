import Sevent.Ws.Frame

-- Frames as a peer sends them: their bytes, how the parser reads a buffer that begins with them,
-- and the messages that a sequence of frames carries.
namespace Sevent.Ws

structure WireFrame where
  fin : Bool
  rsv1 : Bool
  opcode : Nat
  key : Option MaskKey
  payload : Bytes
  opcode_lt : opcode < 16
  length_lt : payload.length < 9223372036854775808

-- ---- the header ----

-- The bits of the first byte.
def startByte (fin rsv1 : Bool) (opcode : Nat) : Byte :=
  (if fin then 0x80 else 0) ||| (if rsv1 then 0x40 else 0) ||| UInt8.ofNat opcode

theorem startByte_bits (fin rsv1 : Bool) (opcode : Nat) (h : opcode < 16) :
    let b := startByte fin rsv1 opcode
    (b &&& 0x80 != 0) = fin ∧ (b &&& 0x40 != 0) = rsv1 ∧ (b &&& 0x20 != 0) = false ∧
      (b &&& 0x10 != 0) = false ∧ (b &&& 0x0F).toNat = opcode := by
  have hall : ∀ fin rsv1 : Bool, ∀ opcode : Fin 16,
      let b := startByte fin rsv1 opcode
      (b &&& 0x80 != 0) = fin ∧ (b &&& 0x40 != 0) = rsv1 ∧ (b &&& 0x20 != 0) = false ∧
        (b &&& 0x10 != 0) = false ∧ (b &&& 0x0F).toNat = opcode := by decide
  exact hall fin rsv1 ⟨opcode, h⟩

def lengthByte (mask : Bool) (len7 : Nat) : Byte := (if mask then 0x80 else 0) ||| UInt8.ofNat len7

theorem lengthByte_bits (mask : Bool) (len7 : Nat) (h : len7 < 128) :
    (lengthByte mask len7 &&& 0x80 != 0) = mask ∧ (lengthByte mask len7 &&& 0x7F).toNat = len7 := by
  have hall : ∀ mask : Bool, ∀ len7 : Fin 128,
      (lengthByte mask len7 &&& 0x80 != 0) = mask ∧ (lengthByte mask len7 &&& 0x7F).toNat = len7 := by
    decide
  exact hall mask ⟨len7, h⟩

-- How a length is written: seven bits, then the extended length.
def lengthCode (len : Nat) : Nat × Bytes :=
  if len < 126 then (len, [])
  else if len ≤ 65535 then (126, [UInt8.ofNat (len / 256), UInt8.ofNat len])
  else (127, (List.range 8).map fun i => UInt8.ofNat (len >>> (56 - 8 * i)))

theorem buildHeader_eq (fin rsv1 : Bool) (opcode : Nat) (key : Option MaskKey) (len : Nat)
    (h : opcode < 16) :
    buildHeader fin rsv1 opcode key len =
      some (startByte fin rsv1 opcode :: lengthByte key.isSome (lengthCode len).1 ::
        ((lengthCode len).2 ++ (key.map MaskKey.bytes).getD [])) := by
  unfold buildHeader lengthCode
  rw [if_neg (by omega)]
  by_cases h₁ : len < 126
  · simp only [if_pos h₁]
    rfl
  · simp only [if_neg h₁]
    by_cases h₂ : len ≤ 65535
    · simp only [if_pos h₂]
      rfl
    · simp only [if_neg h₂]
      rfl

theorem lengthCode_spec (len : Nat) (h : len < 9223372036854775808) :
    (lengthCode len).1 < 128 ∧ (lengthCode len).2.length = extendedLen (lengthCode len).1 ∧
      (if (lengthCode len).1 < 126 then (lengthCode len).1 else bigEndian (lengthCode len).2) = len ∧
      ((lengthCode len).1 = 127 → (lengthCode len).2.getD 0 0 &&& 0x80 = 0) := by
  by_cases h₁ : len < 126
  · have e : lengthCode len = (len, []) := by simp [lengthCode, h₁]
    rw [e]
    refine ⟨by dsimp only; omega, by simp [extendedLen, h₁], if_pos h₁, fun h => ?_⟩
    dsimp only at h
    omega
  by_cases h₂ : len ≤ 65535
  · have e : lengthCode len = (126, [UInt8.ofNat (len / 256), UInt8.ofNat len]) := by
      simp [lengthCode, h₁, h₂]
    rw [e]
    refine ⟨by simp, rfl, ?_, fun h => by cases h⟩
    rw [if_neg (by simp)]
    simp only [bigEndian, List.foldl_cons, List.foldl_nil, UInt8.toNat_ofNat']
    omega
  · have e : lengthCode len =
        (127, [UInt8.ofNat (len >>> 56), UInt8.ofNat (len >>> 48), UInt8.ofNat (len >>> 40),
          UInt8.ofNat (len >>> 32), UInt8.ofNat (len >>> 24), UInt8.ofNat (len >>> 16),
          UInt8.ofNat (len >>> 8), UInt8.ofNat (len >>> 0)]) := by
      rw [lengthCode, if_neg h₁, if_neg h₂]
      rfl
    rw [e]
    refine ⟨by simp, rfl, ?_, fun _ => ?_⟩
    · have hstep : ∀ k, (len >>> (k + 8)) * 256 + (len >>> k) % 256 = len >>> k := by
        intro k
        rw [Nat.shiftRight_add]
        generalize len >>> k = n
        rw [Nat.shiftRight_eq_div_pow]
        omega
      have htop : (len >>> 56) % 256 = len >>> 56 := by
        rw [Nat.shiftRight_eq_div_pow]
        omega
      rw [if_neg (by simp)]
      simp only [bigEndian, List.foldl_cons, List.foldl_nil, UInt8.toNat_ofNat', Nat.zero_mul,
        Nat.zero_add]
      rw [htop, hstep 48, hstep 40, hstep 32, hstep 24, hstep 16, hstep 8, hstep 0]
      rfl
    · have hlow : ∀ n : Fin 128, UInt8.ofNat n &&& 0x80 = 0 := by decide
      have hlt : len >>> 56 < 128 := by
        rw [Nat.shiftRight_eq_div_pow]
        omega
      exact hlow ⟨len >>> 56, hlt⟩

namespace WireFrame

def head (f : WireFrame) : Bytes :=
  (buildHeader f.fin f.rsv1 f.opcode f.key f.payload.length).getD []

def header (f : WireFrame) : FrameHeader :=
  { fin := f.fin, rsv1 := f.rsv1, rsv2 := false, rsv3 := false, opcode := f.opcode
    mask := f.key.isSome, payloadLen := f.payload.length, maskKey := f.key.getD ⟨0, 0, 0, 0⟩ }

section

variable (f : WireFrame)

@[simp] theorem header_fin : f.header.fin = f.fin := rfl
@[simp] theorem header_rsv1 : f.header.rsv1 = f.rsv1 := rfl
@[simp] theorem header_rsv2 : f.header.rsv2 = false := rfl
@[simp] theorem header_rsv3 : f.header.rsv3 = false := rfl
@[simp] theorem header_opcode : f.header.opcode = f.opcode := rfl
@[simp] theorem header_mask : f.header.mask = f.key.isSome := rfl
@[simp] theorem header_payloadLen : f.header.payloadLen = f.payload.length := rfl

end

def keyBytes (f : WireFrame) : Bytes := (f.key.map MaskKey.bytes).getD []

theorem keyBytes_length (f : WireFrame) :
    f.keyBytes.length = if f.key.isSome then 4 else 0 := by
  unfold keyBytes
  cases f.key <;> rfl

theorem head_eq (f : WireFrame) :
    f.head = startByte f.fin f.rsv1 f.opcode ::
      lengthByte f.key.isSome (lengthCode f.payload.length).1 ::
        ((lengthCode f.payload.length).2 ++ f.keyBytes) := by
  rw [head, buildHeader_eq _ _ _ _ _ f.opcode_lt]
  rfl

theorem head_length (f : WireFrame) :
    f.head.length = 2 + extendedLen (lengthCode f.payload.length).1 +
      if f.key.isSome then 4 else 0 := by
  rw [head_eq, ← keyBytes_length, ← (lengthCode_spec _ f.length_lt).2.1]
  simp only [List.length_cons, List.length_append]
  omega

theorem head_length_le (f : WireFrame) : 2 ≤ f.head.length ∧ f.head.length ≤ 14 := by
  rw [head_length]
  unfold extendedLen
  split_ifs <;> omega

theorem getD_after (b₀ b₁ : Byte) (ext r : Bytes) (i : Nat) :
    (b₀ :: b₁ :: (ext ++ r)).getD (2 + ext.length + i) 0 = r.getD i 0 := by
  rw [show 2 + ext.length + i = (ext.length + i) + 1 + 1 by omega, List.getD_cons_succ,
    List.getD_cons_succ, List.getD_eq_getElem?_getD, List.getD_eq_getElem?_getD,
    List.getElem?_append_right (Nat.le_add_right _ _), Nat.add_sub_cancel_left]

theorem keyAt_head (f : WireFrame) (b₀ b₁ : Byte) (ext x : Bytes) :
    (if f.key.isSome then keyAt (b₀ :: b₁ :: (ext ++ f.keyBytes ++ x)) (2 + ext.length)
      else ⟨0, 0, 0, 0⟩) = f.key.getD ⟨0, 0, 0, 0⟩ := by
  have hat := fun i => getD_after b₀ b₁ ext (f.keyBytes ++ x) i
  unfold keyBytes at *
  cases hk : f.key with
  | none => rfl
  | some key =>
      rw [hk] at hat
      simp only [Option.isSome_some, if_true, Option.map_some, Option.getD_some, keyAt,
        List.append_assoc] at hat ⊢
      rw [hat 1, hat 2, hat 3, show 2 + ext.length = 2 + ext.length + 0 from rfl, hat 0]
      rfl

-- A buffer that begins with the header of a frame.
theorem parseHeader_head (f : WireFrame) (x : Bytes) :
    parseHeader (f.head ++ x) = .complete f.header f.head.length := by
  obtain ⟨hlt, hext, hval, htop⟩ := lengthCode_spec f.payload.length f.length_lt
  have hkey := f.keyBytes_length
  have hlen := f.head_length
  have hat := f.keyAt_head (startByte f.fin f.rsv1 f.opcode)
    (lengthByte f.key.isSome (lengthCode f.payload.length).1) (lengthCode f.payload.length).2 x
  obtain ⟨hfin, h₁, h₂, h₃, hop⟩ := startByte_bits f.fin f.rsv1 f.opcode f.opcode_lt
  obtain ⟨hmask, hlen7⟩ := lengthByte_bits f.key.isSome _ hlt
  rw [hlen, head_eq]
  generalize startByte f.fin f.rsv1 f.opcode = b₀ at *
  generalize lengthByte f.key.isSome (lengthCode f.payload.length).1 = b₁ at *
  generalize hlc : lengthCode f.payload.length = lc at *
  have htotal : (b₀ :: b₁ :: (lc.2 ++ f.keyBytes) ++ x).length =
      2 + extendedLen lc.1 + (if f.key.isSome then 4 else 0) + x.length := by
    simp only [List.length_append, List.length_cons, hext, hkey]
    omega
  unfold parseHeader
  simp only [List.cons_append, List.getD_cons_zero, List.getD_cons_succ, hmask, hlen7] at *
  rw [if_neg (by omega), if_neg (by omega), if_neg, if_neg]
  · simp only [hfin, h₁, h₂, h₃, hop, header, hext] at hat ⊢
    rw [hat]
    simp only [HeaderResult.complete.injEq, FrameHeader.mk.injEq, true_and, and_true]
    rw [List.drop_succ_cons, List.drop_succ_cons, List.drop_zero, List.append_assoc, ← hext,
      List.take_left, hval]
  · rintro ⟨hm, hshort⟩
    simp only [hm, if_true] at htotal
    omega
  · rintro ⟨h127, hbit⟩
    have hne : lc.2 ≠ [] := by
      intro hnil
      simp [hnil, h127, extendedLen] at hext
    obtain ⟨e, rest, he⟩ := List.exists_cons_of_ne_nil hne
    simp only [he, List.cons_append, List.getD_cons_zero] at hbit htop
    exact hbit (htop h127)

-- A part of a header.
theorem parseHeader_short (f : WireFrame) (b : Bytes) (hp : b <+: f.head)
    (hb : b.length < f.head.length) : parseHeader b = .more := by
  obtain ⟨hlt, hext, hval, htop⟩ := lengthCode_spec f.payload.length f.length_lt
  have hlen := f.head_length
  obtain ⟨hmask, hlen7⟩ := lengthByte_bits f.key.isSome _ hlt
  rw [hlen] at hb
  rw [head_eq] at hp
  generalize startByte f.fin f.rsv1 f.opcode = b₀ at *
  generalize lengthByte f.key.isSome (lengthCode f.payload.length).1 = b₁ at *
  generalize hlc : lengthCode f.payload.length = lc at *
  unfold parseHeader
  by_cases h2 : b.length < 2
  · rw [if_pos h2]
  obtain ⟨r, rfl, hr⟩ : ∃ r, b = b₀ :: b₁ :: r ∧ r <+: lc.2 ++ f.keyBytes := by
    match b, hp, h2 with
    | x :: y :: r, hp, _ =>
        obtain ⟨hx, hp⟩ := List.cons_prefix_cons.mp hp
        obtain ⟨hy, hp⟩ := List.cons_prefix_cons.mp hp
        exact ⟨r, by rw [hx, hy], hp⟩
    | [x], _, h2 => simp at h2
    | [], _, h2 => simp at h2
  rw [if_neg h2]
  simp only [List.getD_cons_zero, List.getD_cons_succ, hmask, hlen7, List.length_cons] at *
  by_cases hshort : r.length + 1 + 1 < 2 + extendedLen lc.1
  · rw [if_pos hshort]
  rw [if_neg hshort, if_neg, if_pos]
  · refine ⟨?_, ?_⟩
    · by_contra hm
      simp [hm] at hb
      omega
    · split at hb <;> omega
  · rintro ⟨h127, hbit⟩
    obtain ⟨e, rest, he⟩ : ∃ e rest, lc.2 = e :: rest := by
      refine List.exists_cons_of_ne_nil fun hnil => ?_
      simp [hnil, h127, extendedLen] at hext
    have h8 : extendedLen lc.1 = 8 := by simp [h127, extendedLen]
    obtain ⟨e', rest', rfl⟩ : ∃ e' rest', r = e' :: rest' := by
      refine List.exists_cons_of_ne_nil fun hnil => ?_
      simp [hnil] at hshort
      omega
    rw [he, List.cons_append] at hr
    obtain ⟨rfl, -⟩ := List.cons_prefix_cons.mp hr
    simp only [he, List.getD_cons_zero] at hbit htop
    exact hbit (htop h127)

-- ---- the payload ----

def body (f : WireFrame) : Bytes :=
  match f.key with
  | none => f.payload
  | some key => applyMask key f.payload

def bytes (f : WireFrame) : Bytes := f.head ++ f.body

@[simp] theorem body_length (f : WireFrame) : f.body.length = f.payload.length := by
  unfold body
  cases f.key with
  | none => rfl
  | some key => exact applyMask_length key f.payload

theorem bytes_length (f : WireFrame) : f.bytes.length = f.head.length + f.payload.length := by
  rw [bytes, List.length_append, body_length]

-- PING and PONG.
def control (f : WireFrame) : Bool := f.opcode == Opcode.ping || f.opcode == Opcode.pong

end WireFrame

-- ---- sequences of frames ----

def wire (fs : List WireFrame) : Bytes := fs.flatMap WireFrame.bytes

@[simp] theorem wire_nil : wire [] = [] := rfl

@[simp] theorem wire_cons (f : WireFrame) (fs : List WireFrame) : wire (f :: fs) = f.bytes ++ wire fs :=
  List.flatMap_cons

-- The first frames of messages: uncompressed BINARY, uncompressed TEXT, any uncompressed one,
-- compressed ones.
def WireFrame.opensBinary (f : WireFrame) : Bool := f.opcode == Opcode.binary && !f.rsv1
def WireFrame.opensText (f : WireFrame) : Bool := f.opcode == Opcode.text && !f.rsv1
def WireFrame.opensPlain (f : WireFrame) : Bool := f.opensText || f.opensBinary

def WireFrame.opensCompressed (f : WireFrame) : Bool :=
  (f.opcode == Opcode.text || f.opcode == Opcode.binary) && f.rsv1

-- Whole messages to a client or to a server, PING and PONG anywhere. `inside` = a message has begun.
def Legal (opens : WireFrame → Bool) (isClient : Bool) : Bool → List WireFrame → Prop
  | inside, [] => inside = false
  | inside, f :: fs =>
      f.key.isSome = !isClient ∧
      if f.control then
        f.fin = true ∧ f.rsv1 = false ∧ f.payload.length ≤ 125 ∧ Legal opens isClient inside fs
      else
        (if inside then f.opcode = Opcode.cont ∧ f.rsv1 = false else opens f = true) ∧
        Legal opens isClient (!f.fin) fs

instance decidableLegal (opens : WireFrame → Bool) (isClient : Bool) :
    ∀ inside fs, Decidable (Legal opens isClient inside fs)
  | inside, [] => inferInstanceAs (Decidable (inside = false))
  | inside, f :: fs =>
      have := decidableLegal opens isClient inside fs
      have := decidableLegal opens isClient (!f.fin) fs
      inferInstanceAs (Decidable (_ ∧ ite _ _ _))

-- The messages that the frames complete, when `part` of the first one has come before.
def messages (part : Bytes) : List WireFrame → List Bytes
  | [] => []
  | f :: fs =>
      if f.control then messages part fs
      else if f.fin then (part ++ f.payload) :: messages [] fs
      else messages (part ++ f.payload) fs

-- A message that has begun is completed.
theorem messages_inside {opens : WireFrame → Bool} {isClient : Bool} {fs : List WireFrame}
    (part : Bytes) (h : Legal opens isClient true fs) :
    ∃ m rest, messages part fs = m :: rest ∧ part <+: m := by
  induction fs generalizing part with
  | nil => cases h
  | cons f fs ih =>
      obtain ⟨-, h⟩ := h
      unfold messages
      by_cases hc : f.control = true
      · rw [if_pos hc] at h ⊢
        exact ih part h.2.2.2
      · rw [if_neg hc] at h ⊢
        by_cases hf : f.fin = true
        · rw [if_pos hf]
          exact ⟨_, _, rfl, List.prefix_append _ _⟩
        · rw [if_neg hf]
          obtain ⟨m, rest, hm, hp⟩ := ih (part ++ f.payload) (by simpa [hf] using h.2)
          exact ⟨m, rest, hm, (List.prefix_append _ _).trans hp⟩

end Sevent.Ws
