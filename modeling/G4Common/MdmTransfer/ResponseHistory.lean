/-
What a response owes to earlier ones (`mdm-helper/mdmfiletransfer/dload_protocol.c`).

The readers of one framed response give all of `rx_buffer` to the decoder.  When the bytes that were read
stop in the middle of a frame, the decoder goes on in what earlier packets have left there.
`readPkt_ignoresHistory_iff` says when this can make a difference: when the bytes are the beginning of a
frame that would be taken and that still fits in the buffer.  `read_mem_read_resp()` wants a flag at the end
of what was read and never gets that far.

The verdict of a reader comes with the packet that was decoded.  If the buffer ends with an escape, the
decoder reads one byte behind it and returns `FALSE`, whatever this byte is: here this is no packet, too.
-/
import G4Common.MdmTransfer.RamDump

namespace G4Common.MdmTransfer

open List Option

/-! ### The readers with what they decode -/

/-- `read_pkt_mem_dbg_info_resp()`. -/
def readPktMemDbgInfoRespDecoded : RxAnswer → CArray Byte → Option (CArray Byte × Option ℕ) :=
  readPktDecoded true dloadCmdMemDbgInfoResp

def readPktParamRespDecoded (skipOpeningByteCheck : Bool) :
    RxAnswer → CArray Byte → Option (CArray Byte × Option ℕ) :=
  readPktDecoded skipOpeningByteCheck dloadCmdParamResp

/-- The verdict does not depend on what was in a buffer of `n` bytes. -/
def IgnoresHistory (n : ℕ) (read : CArray Byte → Option (CArray Byte × Option ℕ)) : Prop :=
  ∀ b1 b2 : CArray Byte, b1.size = n → b2.size = n → verdict (read b1) = verdict (read b2)

variable {skip : Bool} {cmd : Byte} {d : List Byte} {r : RxAnswer} {n : ℕ}

/-! ### Bytes that were read and bytes that were there -/

theorem length_bytes_le (r : RxAnswer) (n : ℕ) : (r.bytes n).length ≤ n := by
  rw [RxAnswer.bytes, length_take]
  omega

theorem length_ackBuffer (rxBuffer : CArray Byte) (r : RxAnswer) : (ackBuffer rxBuffer r).length = rxBuffer.size := by
  have hle := length_bytes_le r rxBuffer.size
  rw [ackBuffer, length_append, CArray.length_slice]
  omega

/-- The bytes that were read are the beginning of what is sent of a packet with this command, but not all of it,
and there is room for the rest in a buffer of `n` bytes. -/
def Truncated (skip : Bool) (cmd : Byte) (n : ℕ) (r : RxAnswer) : Prop :=
  r ≠ none ∧ ∃ d, d.head? = some cmd ∧ r.bytes n <+: sent skip d ∧ r.bytes n ≠ sent skip d ∧
    (sent skip d).length ≤ n

theorem sent_prefix_ackBuffer {b1 b2 : CArray Byte}
    (hsize : b1.size = b2.size) (hr : r ≠ none) (ht : ¬ Truncated skip cmd b1.size r)
    (hd : sent skip d <+: ackBuffer b1 r) (hhead : d.head? = some cmd) : sent skip d <+: ackBuffer b2 r := by
  have hread : ∀ b : CArray Byte, r.bytes b.size <+: ackBuffer b r := fun b => prefix_append _ _
  rcases prefix_or_prefix_of_prefix hd (hread b1) with h | h
  · rw [hsize] at h
    exact h.trans (hread b2)
  by_cases heq : r.bytes b1.size = sent skip d
  · rw [← heq, hsize]
    exact hread b2
  · have hle := hd.length_le
    rw [length_ackBuffer] at hle
    exact absurd ⟨hr, d, hhead, h, heq, hle⟩ ht

theorem Truncated.rest (h : Truncated skip cmd n r) :
    ∃ d m, d.head? = some cmd ∧ sent skip d = r.bytes n ++ m ∧ ahdlcFlag ∈ m ∧
      (r.bytes n).length + m.length ≤ n := by
  obtain ⟨-, d, hhead, ⟨m, hm⟩, hne, hle⟩ := h
  refine ⟨d, m, hhead, hm.symm, ?_, ?_⟩
  · obtain ⟨l, hl⟩ := sent_eq_append skip d
    cases m using reverseRecOn with
    | nil =>
      rw [append_nil] at hm
      exact absurd hm hne
    | append_singleton =>
      rw [hl, ← append_assoc] at hm
      rw [(append_inj' hm rfl).2, mem_append]
      exact .inr (mem_singleton_self _)
  · rw [← hm, length_append] at hle
    exact hle

/-- **When the history matters to the readers of one framed response.** -/
theorem readPkt_ignoresHistory_iff (hcmd : cmd ≠ ahdlcFlag) (n : ℕ) (r : RxAnswer) :
    IgnoresHistory n (readPktDecoded skip cmd r) ↔ ¬ Truncated skip cmd n r := by
  constructor
  · intro h ht
    obtain ⟨d, m, hhead, hsent, hflag, _⟩ := ht.rest
    set k := (r.bytes n).length with hk
    -- One buffer has the missing bytes in their place, and the other is empty.
    have hverdict := h ⟨n, (CArray.ofList (sent skip d)).get⟩ (CArray.zeros n) rfl rfl
    have hfull : sent skip d <+: ackBuffer ⟨n, (CArray.ofList (sent skip d)).get⟩ r := by
      show sent skip d <+: r.bytes n ++ (CArray.ofList (sent skip d)).slice (r.bytes n).length (n - (r.bytes n).length)
      rw [← hk, show n - k = m.length + (n - k - m.length) by omega, CArray.slice_add, CArray.slice_ofList]
      · have hrest : ((sent skip d).drop k).take m.length = m := by
          rw [hsent, hk, drop_left, take_length]
        rw [hrest, ← append_assoc, ← hsent]
        exact prefix_append _ _
      · rw [hsent, length_append]
    rw [(verdict_readPkt_iff hcmd).2 ⟨ht.1, hfull, hhead⟩] at hverdict
    have hempty := ((verdict_readPkt_iff hcmd).1 hverdict.symm).2.1
    have hm : m <+: (CArray.zeros n).slice k (n - k) := by
      rw [hsent] at hempty
      exact (prefix_append_right_inj _).1 hempty
    obtain ⟨i, -, hi⟩ := mem_map.1 (hm.subset hflag)
    exact absurd hi (by decide : ¬ (0#8 : Byte) = ahdlcFlag)
  intro ht _ _ h1 h2
  apply ext
  intro d
  rw [verdict_readPkt_iff hcmd, verdict_readPkt_iff hcmd]
  constructor
  · rintro ⟨hr, hd, hhead⟩
    exact ⟨hr, sent_prefix_ackBuffer (h1.trans h2.symm) hr (by rw [h1]; exact ht) hd hhead, hhead⟩
  · rintro ⟨hr, hd, hhead⟩
    exact ⟨hr, sent_prefix_ackBuffer (h2.trans h1.symm) hr (by rw [h2]; exact ht) hd hhead, hhead⟩

/-! ### `read_mem_read_resp()` -/

theorem readMemReadResp_ignoresHistory (n : ℕ) (rs : List RxAnswer) : IgnoresHistory n (readMemReadRespDecoded rs) := by
  intro b1 b2 h1 h2
  apply ext
  intro d
  rw [verdict_readMemReadResp_iff, verdict_readMemReadResp_iff, h1, h2]

/-- **Responses and history.**  The verdict of a reader of one framed response depends on the bytes that were
read alone exactly when these are not a truncated response of the right kind; that of
`read_mem_read_resp()` always does. -/
theorem responses_ignore_history (n : ℕ) :
    (∀ r, IgnoresHistory n (readPktAckDecoded r) ↔ ¬ Truncated false dloadCmdAck n r) ∧
    (∀ r, IgnoresHistory n (readPktMemDbgInfoRespDecoded r) ↔ ¬ Truncated true dloadCmdMemDbgInfoResp n r) ∧
    (∀ rs, IgnoresHistory n (readMemReadRespDecoded rs)) ∧
    ∀ skip r, IgnoresHistory n (readPktParamRespDecoded skip r) ↔ ¬ Truncated skip dloadCmdParamResp n r := by
  refine ⟨?_, ?_, readMemReadResp_ignoresHistory n, ?_⟩
  · exact readPkt_ignoresHistory_iff (by decide) n
  · exact readPkt_ignoresHistory_iff (by decide) n
  · intro _
    exact readPkt_ignoresHistory_iff (by decide) n

/-- Two bytes of an acknowledgement are completed by what is in the buffer from an earlier one. -/
theorem responses_ignore_history_fails : ¬ ∀ r, IgnoresHistory dloadRxBufferLength (readPktAckDecoded r) := by
  intro h
  have hne := (readPkt_ignoresHistory_iff (by decide) dloadRxBufferLength (some [0x7e#8, 0x02#8])).1
    (h (some [0x7e#8, 0x02#8]))
  refine hne ⟨by simp, [0x02#8], rfl, ?_, ?_, ?_⟩
  · exact ⟨[0x7e#8], by decide⟩
  · decide
  · decide

end G4Common.MdmTransfer
