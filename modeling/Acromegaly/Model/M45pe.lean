import Acromegaly.Found.Bytes

/-!
# The flash chip and its driver

`M45peChip` is the chip as far as the driver uses it: write enable sets a latch, a page write
with the latch set overwrites the addressed bytes and clears it, a read clocks the addressed bytes
out. `M45pe` is the driver of `src/driver/m45pe_drv.c` with the chip behind it: the completion
flag, which gates every call, and the two static buffers.

The completion event of a transfer is taken to arrive within the 10 ms delay that follows the
transfer (`m45peTransferBlocking`). With it a write is `store` and a read is `load`
(`m45peWrite_of_done`, `m45peRead_of_done`).
-/

namespace Acromegaly

open Found

/-! ## The chip -/

/-- `WRITE_ENABLED`. Source: `src/driver/m45pe_drv.c` -/
def writeEnabledCode : UInt8 := 0x06

/-- `READ_BYTES`. Source: `src/driver/m45pe_drv.c` -/
def readBytesCode : UInt8 := 0x03

/-- `WRITE_PAGE`. Source: `src/driver/m45pe_drv.c` -/
def writePageCode : UInt8 := 0x0A

/-- The chip. -/
structure M45peChip where
  mem : ℕ → UInt8
  /-- The write-enable latch. -/
  latch : Bool
  /-- What the master samples, byte by byte, while the chip does not drive its output. -/
  floating : ℕ → UInt8

/-- An address as it is sent, highest byte first. -/
def flashAddress (a₂ a₁ a₀ : UInt8) : ℕ := (a₂.toNat * 256 + a₁.toNat) * 256 + a₀.toNat

/-- The chip after the bytes of one transfer. -/
def M45peChip.receive (chip : M45peChip) : List UInt8 → M45peChip
  | [] => chip
  | code :: args =>
      if code = writeEnabledCode then { chip with latch := true }
      else if code = writePageCode then
        match args with
        | a₂ :: a₁ :: a₀ :: bytes =>
            if chip.latch then
              { chip with mem := store chip.mem (flashAddress a₂ a₁ a₀) bytes, latch := false }
            else chip
        | _ => chip
      else chip

/-- What the master samples during one transfer. -/
def M45peChip.reply (chip : M45peChip) (sent : List UInt8) : List UInt8 :=
  match sent with
  | code :: a₂ :: a₁ :: a₀ :: clocked =>
      if code = readBytesCode then
        load chip.floating 0 4 ++ load chip.mem (flashAddress a₂ a₁ a₀) clocked.length
      else load chip.floating 0 sent.length
  | _ => load chip.floating 0 sent.length

/-! ## The driver -/

/-- `TX_LENGTH`. Source: `src/driver/m45pe_drv.c` -/
def txLength : ℕ := 12

/-- The over-run character the SPI driver sends once the transmit bytes are used up. -/
def spiOrc : UInt8 := 0xFF

/-- The statics of `m45pe_drv.c`, and the chip. -/
structure M45pe where
  spiXferDone : Bool
  mRxBuf : List UInt8
  mTxBuf : List UInt8
  chip : M45peChip

namespace M45pe

/-- The statics as C initialises them. -/
def powerUp (chip : M45peChip) : M45pe where
  spiXferDone := false
  mRxBuf := List.replicate (txLength + 1) 0
  mTxBuf := List.replicate txLength 0
  chip := chip

/-- `m45_init`. Source: `src/driver/m45pe_drv.c` -/
def m45Init (d : M45pe) : M45pe := { d with spiXferDone := true }

/-- `m45pe_transfer_blocking`: both buffers are clocked through the chip, and the completion
event arrives within the delay. Source: `src/driver/m45pe_drv.c` -/
def m45peTransferBlocking (txLen rxLen : ℕ) (d : M45pe) : M45pe :=
  let sent := d.mTxBuf.take txLen ++ List.replicate rxLen spiOrc
  { d with
    mRxBuf := overwrite d.mRxBuf 0 (d.chip.reply sent)
    chip := d.chip.receive sent
    spiXferDone := true }

/-- `m45pe_write`, on the `len` bytes at `val`. Source: `src/driver/m45pe_drv.c` -/
def m45peWrite (key : UInt8) (val : List UInt8) (d : M45pe) : M45pe :=
  if d.spiXferDone = false then d
  else
    let d := { d with spiXferDone := false, mTxBuf := List.replicate txLength 0 }
    let d := { d with mTxBuf := d.mTxBuf.set 0 writeEnabledCode }
    let d := d.m45peTransferBlocking 1 0
    let d := { d with mTxBuf := d.mTxBuf.set 0 writePageCode }
    let d := { d with mTxBuf := d.mTxBuf.set 3 key }
    let d := { d with mTxBuf := overwrite d.mTxBuf 4 val }
    d.m45peTransferBlocking (val.length + 4) 0

/-- `m45pe_read`, with the `len` bytes found at `val` afterwards.
Source: `src/driver/m45pe_drv.c` -/
def m45peRead (key : UInt8) (val : List UInt8) (d : M45pe) : M45pe × List UInt8 :=
  if d.spiXferDone = false then (d, val)
  else
    let d := { d with
      spiXferDone := false
      mTxBuf := List.replicate txLength 0
      mRxBuf := List.replicate (txLength + 1) 0 }
    let d := { d with mTxBuf := d.mTxBuf.set 0 readBytesCode }
    let d := { d with mTxBuf := d.mTxBuf.set 3 key }
    let d := d.m45peTransferBlocking 4 val.length
    (d, (d.mRxBuf.drop 4).take val.length)

/-! ### What the calls do -/

theorem flashAddress_key (key : UInt8) : flashAddress 0 0 key = key.toNat := by
  simp [flashAddress]

/-- The first transfer of a write sets the latch and nothing else that matters. -/
theorem transfer_writeEnabled {d : M45pe} (h : d.mTxBuf.take 1 = [writeEnabledCode]) :
    (d.m45peTransferBlocking 1 0).chip = { d.chip with latch := true } := by
  unfold m45peTransferBlocking
  simp [h, M45peChip.receive]

/-- The second transfer of a write stores the bytes. -/
theorem transfer_writePage {d : M45pe} {key : UInt8} {val : List UInt8}
    (h : d.mTxBuf.take (val.length + 4) = [writePageCode, 0, 0, key] ++ val)
    (hlatch : d.chip.latch = true) :
    (d.m45peTransferBlocking (val.length + 4) 0).chip.mem = store d.chip.mem key.toNat val := by
  have hcode : writePageCode ≠ writeEnabledCode := by decide
  unfold m45peTransferBlocking
  simp [h, M45peChip.receive, hcode, hlatch, flashAddress_key]

/-- The transfer of a read leaves the chip as it is and its reply in the receive buffer. -/
theorem transfer_readBytes {d : M45pe} {key : UInt8} {n : ℕ}
    (h : d.mTxBuf.take 4 = [readBytesCode, 0, 0, key]) (hn : 4 + n ≤ d.mRxBuf.length) :
    (d.m45peTransferBlocking 4 n).chip = d.chip ∧
      ((d.m45peTransferBlocking 4 n).mRxBuf.drop 4).take n = load d.chip.mem key.toNat n := by
  have hcode : readBytesCode ≠ writeEnabledCode ∧ readBytesCode ≠ writePageCode := by decide
  have hreply : d.chip.reply ([readBytesCode, 0, 0, key] ++ List.replicate n spiOrc) =
      load d.chip.floating 0 4 ++ load d.chip.mem key.toNat n := by
    simp [M45peChip.reply, flashAddress_key]
  unfold m45peTransferBlocking
  rw [h]
  constructor
  · simp [M45peChip.receive, hcode]
  · have htake : (overwrite d.mRxBuf 0 (load d.chip.floating 0 4 ++
        load d.chip.mem key.toNat n)).take (4 + n) =
          load d.chip.floating 0 4 ++ load d.chip.mem key.toNat n := by
      have hlen : (load d.chip.floating 0 4 ++ load d.chip.mem key.toNat n).length = 4 + n := by
        simp
      have h₀ := take_overwrite (show 0 + (load d.chip.floating 0 4 ++
        load d.chip.mem key.toNat n).length ≤ d.mRxBuf.length by rw [hlen]; omega)
      rwa [hlen, Nat.zero_add] at h₀
    simp only
    rw [hreply, List.take_drop, htake]
    simp

/-- **A write that is not skipped** stores its bytes from address `key` on. -/
theorem m45peWrite_of_done {d : M45pe} (h : d.spiXferDone = true) (key : UInt8) {val : List UInt8}
    (hlen : val.length ≤ 8) :
    (d.m45peWrite key val).spiXferDone = true ∧
      (d.m45peWrite key val).chip.mem = store d.chip.mem key.toNat val := by
  unfold m45peWrite
  rw [if_neg (by simp [h])]
  refine ⟨rfl, ?_⟩
  rw [@transfer_writePage _ key]
  · rw [transfer_writeEnabled rfl]
  · have hbuf : (((List.replicate txLength 0).set 0 writeEnabledCode).set 0 writePageCode).set 3 key
        = [writePageCode, 0, 0, key] ++ List.replicate 8 0 := rfl
    simp only [m45peTransferBlocking]
    rw [hbuf, Nat.add_comm val.length 4, take_overwrite (by simp; omega)]
    rfl
  · rw [transfer_writeEnabled rfl]

/-- **A read that is not skipped** fetches the bytes from address `key` on. -/
theorem m45peRead_of_done {d : M45pe} (h : d.spiXferDone = true) (key : UInt8) {val : List UInt8}
    (hlen : val.length ≤ 8) :
    (d.m45peRead key val).1.spiXferDone = true ∧ (d.m45peRead key val).1.chip = d.chip ∧
      (d.m45peRead key val).2 = load d.chip.mem key.toNat val.length := by
  unfold m45peRead
  rw [if_neg (by simp [h])]
  refine ⟨rfl, ?_⟩
  apply transfer_readBytes rfl
  simp only [List.length_replicate, txLength]
  omega

end M45pe

end Acromegaly
