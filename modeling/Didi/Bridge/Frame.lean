import Didi.Bridge.Dump

/-!
# One message as one frame

* `frameMessage` : the length of the serialized message in four bytes, then as many bytes of it;
* `OneFrame` : what the peer takes for one frame, and its payload;
* `frameMessage_served` : a message of less than `2 ^ 32` bytes is one frame with its whole text, and
  `not_object_of_long` : the frame of a longer one holds the text of no object.
-/

namespace Didi.Bridge

def kMaximumFrameBytes : Nat := 128 * 1024 * 1024

/-- The four bytes of a `uint32_t`, the lowest first. -/
def lengthBytes (len : Nat) : Bytes :=
  [UInt8.ofNat len, UInt8.ofNat (len / 2 ^ 8), UInt8.ofNat (len / 2 ^ 16), UInt8.ofNat (len / 2 ^ 24)]

/-- The bytes do not overlap, so `|` adds them. -/
def decodeFrameLength (b₀ b₁ b₂ b₃ : UInt8) : Nat :=
  b₀.toNat + b₁.toNat * 2 ^ 8 + b₂.toNat * 2 ^ 16 + b₃.toNat * 2 ^ 24

/-- `none` is the exception that `dump()` throws. The length is cast to `uint32_t`, and as many bytes are copied. -/
def frameMessage (message : ByteJson) : Option Bytes := do
  let serialized ← message.dump
  let len := serialized.length % 2 ^ 32
  some (lengthBytes len ++ serialized.take len)

/-- `frame` is one frame with the payload `body`. -/
def OneFrame (frame body : Bytes) : Prop :=
  ∃ b₀ b₁ b₂ b₃, frame = b₀ :: b₁ :: b₂ :: b₃ :: body ∧ decodeFrameLength b₀ b₁ b₂ b₃ = body.length

theorem decode_lengthBytes {len : Nat} (h : len < 2 ^ 32) :
    decodeFrameLength (UInt8.ofNat len) (UInt8.ofNat (len / 2 ^ 8)) (UInt8.ofNat (len / 2 ^ 16))
      (UInt8.ofNat (len / 2 ^ 24)) = len := by
  simp only [decodeFrameLength, UInt8.toNat_ofNat']
  omega

/-- A frame has one payload. -/
theorem OneFrame.unique {frame body body' : Bytes} (h : OneFrame frame body) (h' : OneFrame frame body') :
    body = body' := by
  obtain ⟨_, _, _, _, h, -⟩ := h
  obtain ⟨_, _, _, _, h', -⟩ := h'
  rw [h] at h'
  simp only [List.cons.injEq] at h'
  exact h'.2.2.2.2

theorem oneFrame_lengthBytes {body : Bytes} (h : body.length < 2 ^ 32) :
    OneFrame (lengthBytes body.length ++ body) body :=
  ⟨_, _, _, _, rfl, decode_lengthBytes h⟩

variable {message : ByteJson} {frame : Bytes}

theorem frameMessage_eq_some (h : frameMessage message = some frame) :
    message.WellFormed ∧ OneFrame frame (message.text.take (message.text.length % 2 ^ 32)) := by
  rw [frameMessage] at h
  obtain ⟨serialized, hdump, h⟩ := Option.bind_eq_some_iff.mp h
  obtain ⟨hwf, rfl⟩ := ByteJson.dump_eq_some hdump
  cases h
  refine ⟨hwf, ?_⟩
  have hmod : message.text.length % 2 ^ 32 < 2 ^ 32 := Nat.mod_lt _ (by decide)
  have hlen : (message.text.take (message.text.length % 2 ^ 32)).length = message.text.length % 2 ^ 32 := by
    rw [List.length_take]
    exact Nat.min_eq_left (Nat.mod_le _ _)
  have hframe := oneFrame_lengthBytes (hlen.trans_lt hmod)
  rwa [hlen] at hframe

/-- A message that can be serialized and is not too long is one frame, with its whole text. -/
theorem frameMessage_served (hwf : message.WellFormed) (hlen : message.text.length < 2 ^ 32) :
    ∃ frame, frameMessage message = some frame ∧ OneFrame frame message.text := by
  have hframe : frameMessage message = some (lengthBytes message.text.length ++ message.text) := by
    rw [frameMessage, ByteJson.dump, if_pos hwf]
    simp only [Option.bind_eq_bind, Option.bind_some]
    rw [Nat.mod_eq_of_lt hlen, List.take_length]
  exact ⟨_, hframe, oneFrame_lengthBytes hlen⟩

/-- The frame of a longer message holds a beginning of its text, and that is the text of no object. -/
theorem not_object_of_long (hobject : message.isObject = true) (hlen : 2 ^ 32 ≤ message.text.length)
    (h : frameMessage message = some frame) {body : Bytes} (hbody : OneFrame frame body) {obj : ByteJson}
    (hobj : obj.isObject = true) : obj.dump ≠ some body := by
  intro hdump
  have heq := (ByteJson.dump_eq_some hdump).2
  rw [hbody.unique (frameMessage_eq_some h).2] at heq
  have hmod : message.text.length % 2 ^ 32 < 2 ^ 32 := Nat.mod_lt _ (by decide)
  exact ByteJson.text_ne_take hobject hobj (by omega) heq.symm

end Didi.Bridge
