/-! # Words and their bytes -/
namespace RealMode

def lowByte (w : UInt16) : UInt8 := UInt8.ofNat (w.toNat % 256)

def highByte (w : UInt16) : UInt8 := UInt8.ofNat (w.toNat / 256)

def wordOf (low high : UInt8) : UInt16 := UInt16.ofNat (high.toNat * 256 + low.toNat)

def wordOfByte (b : UInt8) : UInt16 := UInt16.ofNat b.toNat

/-- The word with the same two's-complement value as the byte. -/
def signExtend (b : UInt8) : UInt16 := UInt16.ofInt (Int.bmod b.toNat 256)

theorem toNat_ofInt (x : Int) : (UInt16.ofInt x).toNat = (x % 65536).toNat := by
  simp only [UInt16.ofInt, UInt16.toNat_ofNat']
  omega

theorem toNat_byte_ofInt (x : Int) : (UInt8.ofInt x).toNat = (x % 256).toNat := by
  simp only [UInt8.ofInt, UInt8.toNat_ofNat']
  omega

theorem toNat_wordOfByte (b : UInt8) : (wordOfByte b).toNat = b.toNat := by
  have hb := b.toNat_lt
  simp only [wordOfByte, UInt16.toNat_ofNat']
  omega

theorem toNat_wordOf (low high : UInt8) :
    (wordOf low high).toNat = high.toNat * 256 + low.toNat := by
  have hl := low.toNat_lt
  have hh := high.toNat_lt
  simp only [wordOf, UInt16.toNat_ofNat']
  omega

@[simp] theorem lowByte_wordOf (low high : UInt8) : lowByte (wordOf low high) = low := by
  have hl := low.toNat_lt
  apply UInt8.toNat_inj.mp
  simp only [lowByte, toNat_wordOf, UInt8.toNat_ofNat']
  omega

@[simp] theorem highByte_wordOf (low high : UInt8) : highByte (wordOf low high) = high := by
  have hl := low.toNat_lt
  have hh := high.toNat_lt
  apply UInt8.toNat_inj.mp
  simp only [highByte, toNat_wordOf, UInt8.toNat_ofNat']
  omega

@[simp] theorem lowByte_wordOfByte (b : UInt8) : lowByte (wordOfByte b) = b := by
  have hb := b.toNat_lt
  apply UInt8.toNat_inj.mp
  simp only [lowByte, wordOfByte, UInt8.toNat_ofNat', UInt16.toNat_ofNat']
  omega

@[simp] theorem wordOf_lowByte_highByte (w : UInt16) : wordOf (lowByte w) (highByte w) = w := by
  have hw := w.toNat_lt
  apply UInt16.toNat_inj.mp
  simp only [lowByte, highByte, toNat_wordOf, UInt8.toNat_ofNat']
  omega

end RealMode
