/-! # The console transcript

Older bytes stay in the store until it has twice the length of the transcript.
-/
namespace RealMode.Pc

structure Transcript where
  stored : ByteArray

namespace Transcript

def limit : Nat := 0x10000

def empty : Transcript := ⟨ByteArray.empty⟩

def lastBytes (bs : ByteArray) (n : Nat) : ByteArray := bs.extract (bs.size - n) bs.size

def push (t : Transcript) (b : UInt8) : Transcript :=
  if t.stored.size < 2 * limit then ⟨t.stored.push b⟩
  else ⟨(lastBytes t.stored limit).push b⟩

def bytes (t : Transcript) : ByteArray := lastBytes t.stored limit

end Transcript
end RealMode.Pc
