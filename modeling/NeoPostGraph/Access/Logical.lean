import NeoPostGraph.Postgres.Bytea

/-!
# The logical decoder

`np_message_cb` (`np_logical.c:81-128`) turns a message of the WAL into text. A message is a pointer and a
size: the memory behind the message is there to be read too. An inserted vertex is one byte `V` and a datum;
an edge is one byte `E`, two ids and a datum. The datum is copied, and the copy given to `byteaout`.

* `ByteRead`: a byte of the message, or of the copy of what is behind its byte `start`.
* `npMessageCb`: the callback, with what it writes and every byte it reads.

Result:
* `npMessageCb_within_iff`: for which messages it stays within the message.
-/

namespace NeoPostGraph

open Bytes

/-- A byte that the callback reads. -/
inductive ByteRead where
  | message (i : Nat)
  | copy (start i : Nat)
deriving DecidableEq, Repr

/-- The byte is one of the message: of the message itself, or of what was copied from it. -/
def ByteRead.InMessage (messageSize : Nat) : ByteRead → Prop
  | message i => i < messageSize
  | copy start i => start + i < messageSize

/-- The memory from the message on, and from the end of the copy on. -/
structure MessageMemory where
  message : Nat → UInt8
  behindCopy : Nat → UInt8

/-- What `memcpy` reads, `n` bytes of the message. -/
def readMessage (m : MessageMemory) (start n : Nat) : Traced ByteRead ByteaErr (List UInt8) :=
  .touch ((List.range' start n).map .message) ((List.range' start n).map m.message)

/-- The memory at a copy of some bytes. -/
def MessageMemory.copied (m : MessageMemory) (bytes : List UInt8) (i : Nat) : UInt8 :=
  (bytes[i]?).getD (m.behindCopy (i - bytes.length))

/-- The datum behind byte `start`: copied into aligned memory, and printed. -/
def readVarlena (o : ByteaOutput) (detoastAttr : (Nat → UInt8) → DatumRead (List UInt8))
    (m : MessageMemory) (start : Nat) (len : UInt64) : Traced ByteRead ByteaErr String := do
  palloc len.toNat
  let b ← readMessage m start len.toNat
  (byteaout o detoastAttr (m.copied b)).relabel (.copy start)

/-- `np_message_cb`: what it writes between `OutputPluginPrepareWrite` and `OutputPluginWrite`, which it
does not call for a message of another prefix. `Size` is 64 bits wide, and so are its differences. -/
def npMessageCb (o : ByteaOutput) (detoastAttr : (Nat → UInt8) → DatumRead (List UInt8))
    (m : MessageMemory) (pfx : String) (messageSize : UInt64) :
    Traced ByteRead ByteaErr (Option String) := do
  if pfx ≠ "neopostgraph" then
    return none
  let opcode ← (.touch [.message 0] (m.message 0) : Traced ByteRead ByteaErr UInt8)
  if opcode = 86 then
    let vLen := messageSize - 1
    let hex ← readVarlena o detoastAttr m 1 vLen
    return some ("\x7b\"op\": \"insert_vertex\", \"data\": \"" ++ hex ++ "\"\x7d")
  else if opcode = 69 then
    let startId ← readMessage m 1 8
    let endId ← readMessage m 9 8
    let eLen := messageSize - 17
    let hex ← readVarlena o detoastAttr m 17 eLen
    return some ("\x7b\"op\": \"insert_edge\", \"start_id\": " ++ toString (value startId) ++
      ", \"end_id\": " ++ toString (value endId) ++ ", \"data\": \"" ++ hex ++ "\"\x7d")
  else
    return some ""

/-- The bytes of the message from `start` on are refused by `palloc`, or are a datum that ends in them. -/
def VarlenaFits (o : ByteaOutput) (detoastAttr : (Nat → UInt8) → DatumRead (List UInt8))
    (m : MessageMemory) (start messageSize : Nat) : Prop :=
  maxAllocSize < messageSize - start ∨
    FitsIn o detoastAttr (m.copied ((List.range' start (messageSize - start)).map m.message))
      (messageSize - start)

/-- The message has a byte, and if that is the one of a vertex or an edge, all that has to be behind it. -/
structure WellFormed (o : ByteaOutput) (detoastAttr : (Nat → UInt8) → DatumRead (List UInt8))
    (m : MessageMemory) (messageSize : Nat) : Prop where
  opcode : 1 ≤ messageSize
  vertex : m.message 0 = 86 → VarlenaFits o detoastAttr m 1 messageSize
  edgeIds : m.message 0 = 69 → 17 ≤ messageSize
  edge : m.message 0 = 69 → VarlenaFits o detoastAttr m 17 messageSize

section

variable {o : ByteaOutput} {detoastAttr : (Nat → UInt8) → DatumRead (List UInt8)} {m : MessageMemory}
  {start n size : Nat} {len : UInt64}

theorem within_readMessage_iff (hn : 0 < n) :
    (readMessage m start n).Within (ByteRead.InMessage size) ↔ start + n ≤ size := by
  unfold readMessage
  rw [Traced.within_touch_iff]
  simp only [List.forall_mem_map, List.mem_range'_1, ByteRead.InMessage]
  constructor
  · intro h
    have hlast := h (start + n - 1) (by omega)
    omega
  · intro h i hi
    omega

theorem readMessage_ok_iff {bytes : List UInt8} : (readMessage m start n).result = .ok bytes ↔
    bytes = (List.range' start n).map m.message := by
  unfold readMessage Traced.touch
  rw [Except.ok.injEq, eq_comm]

/-- A datum that is copied from within the message. -/
theorem within_readVarlena_iff (hlen : start + len.toNat = size) :
    (readVarlena o detoastAttr m start len).Within (ByteRead.InMessage size) ↔
      VarlenaFits o detoastAttr m start size := by
  have hsize : size - start = len.toNat := by omega
  have hcopy : (readMessage m start len.toNat).Within (ByteRead.InMessage size) := by
    intro r hr
    obtain ⟨i, hi, rfl⟩ := List.mem_map.mp hr
    have hrange := List.mem_range'_1.mp hi
    show i < size
    omega
  have hin : (fun i => (ByteRead.copy start i).InMessage size) = (· < len.toNat) := by
    funext i
    simp only [ByteRead.InMessage, eq_iff_iff]
    omega
  unfold readVarlena VarlenaFits
  rw [hsize, Traced.within_bind_iff]
  simp only [within_palloc, true_and, palloc_ok_iff, Traced.within_bind_iff, hcopy,
    readMessage_ok_iff, forall_eq,
    Traced.within_relabel_iff, hin, byteaout_within_iff]
  constructor
  · intro h
    by_cases hmax : len.toNat ≤ maxAllocSize
    · exact Or.inr (h () hmax)
    · exact Or.inl (by omega)
  · rintro (h | h) - hmax
    · omega
    · exact h

theorem sub_toNat {a : UInt64} {k : Nat} (hk : k < 2 ^ 64) (h : k ≤ a.toNat) :
    k + (a - UInt64.ofNat k).toNat = a.toNat := by
  have hlt := a.toNat_lt
  rw [UInt64.toNat_sub, UInt64.toNat_ofNat_of_lt' hk]
  omega

/-- **The callback stays within exactly the well-formed messages.** Of another message it reads a byte that
is not in it. -/
theorem npMessageCb_within_iff (o : ByteaOutput)
    (detoastAttr : (Nat → UInt8) → DatumRead (List UInt8)) (m : MessageMemory) (messageSize : UInt64) :
    (npMessageCb o detoastAttr m "neopostgraph" messageSize).Within
        (ByteRead.InMessage messageSize.toNat) ↔
      WellFormed o detoastAttr m messageSize.toNat := by
  have hsizeE : 17 ≤ messageSize.toNat → 17 + (messageSize - 17).toNat = messageSize.toNat :=
    sub_toNat (by decide)
  unfold npMessageCb
  rw [if_neg (by simp), Traced.within_bind_iff, Traced.within_touch_iff]
  simp only [List.mem_singleton, forall_eq, Traced.touch, Except.ok.injEq, forall_eq']
  constructor
  · rintro ⟨h0, h⟩
    have h1 : 1 ≤ messageSize.toNat := h0
    by_cases hV : m.message 0 = 86
    · rw [if_pos hV, Traced.within_bind_iff] at h
      have hE : m.message 0 ≠ 69 := by simp [hV]
      exact ⟨h1, fun _ => (within_readVarlena_iff (sub_toNat (by decide) h1)).mp h.1,
        fun h => absurd h hE, fun h => absurd h hE⟩
    rw [if_neg hV] at h
    by_cases hE : m.message 0 = 69
    · rw [if_pos hE] at h
      simp only [Traced.within_bind_iff, within_readMessage_iff (show 0 < 8 by decide), readMessage_ok_iff,
        forall_eq] at h
      obtain ⟨-, h17, hdatum, -⟩ := h
      exact ⟨h1, fun h => absurd h hV, fun _ => h17,
        fun _ => (within_readVarlena_iff (hsizeE h17)).mp hdatum⟩
    · exact ⟨h1, fun h => absurd h hV, fun h => absurd h hE, fun h => absurd h hE⟩
  · intro h
    refine ⟨h.opcode, ?_⟩
    by_cases hV : m.message 0 = 86
    · rw [if_pos hV, Traced.within_bind_iff]
      exact ⟨(within_readVarlena_iff (sub_toNat (by decide) h.opcode)).mpr (h.vertex hV), by simp⟩
    rw [if_neg hV]
    by_cases hE : m.message 0 = 69
    · have h17 := h.edgeIds hE
      rw [if_pos hE]
      simp only [Traced.within_bind_iff, within_readMessage_iff (show 0 < 8 by decide), readMessage_ok_iff,
        forall_eq]
      exact ⟨by omega, h17, (within_readVarlena_iff (hsizeE h17)).mpr (h.edge hE), by simp⟩
    · rw [if_neg hE]
      simp

/-- A message that is one byte `E`: the ids are read behind its end. -/
theorem npMessageCb_reads_behind :
    ¬ (npMessageCb .hex (fun _ => .fail (.detoast "")) ⟨fun i => if i = 0 then 69 else 0, fun _ => 0⟩
      "neopostgraph" 1).Within (ByteRead.InMessage 1) := by
  intro h
  have h1 : ByteRead.InMessage 1 (.message 1) := h (.message 1) (by decide)
  exact Nat.lt_irrefl 1 h1

end

end NeoPostGraph
