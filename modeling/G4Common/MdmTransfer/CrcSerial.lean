/-
The checksum of `mdm-helper/mdmfiletransfer/crc.c`, bit by bit.

`calculate_crc()` takes a byte by way of a table of 256 words.  The checksum that is meant is the
remainder of a division: a register of 16 bits takes the data bit by bit, the lowest bit of a byte
first (`serialCrc`).  Each word of the table is what eight such steps make of its index
(`isTable_crcWord`), so the two agree on data of less than 2^29 bytes; the bits of more bytes cannot be
counted in a `size_t`, and then only a part of them is taken (`crc_exact`).
-/
import G4Common.MdmTransfer.Hdlc

namespace G4Common.MdmTransfer

open List

def crc16LPolynomial : BitVec 16 := 0x8408#16

/-- The checksum bit by bit: the register begins with ones, and its complement is given. -/
def serialCrc (l : List Byte) : BitVec 16 := ~~~Crc16.serial crc16LPolynomial 0xFFFF#16 l

theorem isTable_crcWord : Crc16.IsTable crc16LPolynomial crcWord := by
  unfold Crc16.IsTable
  decide

theorem crcOf_eq_serialCrc (l : List Byte) : crcOf l = serialCrc l := by
  rw [crcOf, Crc16.run_eq_serial isTable_crcWord]
  rfl

/-- What the checksum of data of `n` bytes should be, what `set_crc()` should write behind them, and what
`check_crc()` should accept. -/
structure CrcExact (n : ℕ) : Prop where
  calculate : ∀ l : List Byte, l.length = n → calculateCrc l (sizeT (n * 8)) = serialCrc l
  set : ∀ a : CArray Byte, n + 2 ≤ a.size → ∃ a', setCrc a n = some a' ∧ a'.size = a.size ∧
    a'.slice n 2 = Crc16.bytes (serialCrc (a.slice 0 n)) ∧ ∀ j, j < n ∨ n + 2 ≤ j → a'.get j = a.get j
  check : ∀ d : List Byte, d.length = n →
    (checkCrc d ↔ ∃ p, d = p ++ Crc16.bytes (calculateCrc p (sizeT (p.length * 8))))

/-- The last byte changes the checksum. -/
theorem serialCrc_last_ne (l : List Byte) : serialCrc (l ++ [0#8]) ≠ serialCrc (l ++ [1#8]) := by
  have hword : ∀ x : BitVec 8, crcWord (x ^^^ 0#8) ≠ crcWord (x ^^^ 1#8) := by decide
  rw [← crcOf_eq_serialCrc, ← crcOf_eq_serialCrc, crcOf, crcOf, Crc16.run_append, Crc16.run_append]
  intro h
  exact hword _ ((BitVec.xor_left_inj _).1 (BitVec.not_inj.1 h))

theorem crcExact_iff (n : ℕ) : CrcExact n ↔ n < 2 ^ 29 := by
  constructor
  · intro h
    by_contra hn
    -- the last of so many bytes is not looked at
    have hcrc : ∀ b : Byte, serialCrc (replicate (n - 1) 0 ++ [b]) = crcOf ((replicate (n - 1) 0).take (n % 2 ^ 29)) := by
      intro b
      have hlen : (replicate (n - 1) 0 ++ [b]).length = n := by
        rw [length_append, length_replicate, length_singleton]
        omega
      rw [← h.calculate _ hlen, calculateCrc_sizeT, take_append_of_le_length]
      rw [length_replicate]
      omega
    exact serialCrc_last_ne _ ((hcrc 0#8).trans (hcrc 1#8).symm)
  intro hn
  refine ⟨?_, ?_, ?_⟩
  · rintro l rfl
    rw [calculateCrc_sizeT, Nat.mod_eq_of_lt hn, take_length, crcOf_eq_serialCrc]
  · intro a h
    obtain ⟨a', hw, hsize, hslice, hothers⟩ := CArray.writeList_of_le (a := a) (i := n)
      (l := crcBytes (a.slice 0 n)) h
    refine ⟨a', (setCrc_eq a n).trans hw, hsize, ?_, hothers⟩
    rw [← crcOf_eq_serialCrc, ← crcBytes_of_lt (CArray.length_slice.trans_lt hn)]
    exact hslice
  · rintro d rfl
    exact checkCrc_iff_of_lt hn

/-- **The checksum.**  `calculate_crc()` is the checksum bit by bit, `set_crc()` writes it behind the data, low
byte first, and `check_crc()` accepts exactly what ends with its own checksum, for data of `n` bytes if and
only if their bits can be counted.  The word that it compares with is what data with their checksum give. -/
theorem crc_exact (n : ℕ) : (CrcExact n ↔ n < 2 ^ 29) ∧
    ∀ p, serialCrc (p ++ Crc16.bytes (serialCrc p)) = 0x0F47#16 := by
  refine ⟨crcExact_iff n, fun p => ?_⟩
  rw [← crcOf_eq_serialCrc, crcOf_eq_residue_iff]
  exact ⟨p, by rw [crcOf_eq_serialCrc]⟩

/-- Data of 2^29 bytes that end with their checksum. -/
theorem crc_exact_fails : ¬ ∀ d : List Byte, checkCrc d ↔ ∃ p, d = p ++ crcBytes p :=
  fun h => not_checkCrc_zeroes ((h _).2 ⟨replicate (2 ^ 29 - 2) 0, rfl⟩)

end G4Common.MdmTransfer
