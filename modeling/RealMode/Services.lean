/-! # Host services -/
namespace RealMode

structure Services (H : Type) where
  table : Vector (Option H) 256

namespace Services

variable {H : Type}

def empty : Services H := ⟨Vector.replicate 256 none⟩

def get? (s : Services H) (v : UInt8) : Option H :=
  have := v.toNat_lt
  s.table[v.toNat]

def put (s : Services H) (v : UInt8) (h : Option H) : Services H :=
  ⟨s.table.set v.toNat h v.toNat_lt⟩

def insert (s : Services H) (v : UInt8) (h : H) : Services H := s.put v (some h)

def erase (s : Services H) (v : UInt8) : Services H := s.put v none

def insertIfNew (s : Services H) (v : UInt8) (h : H) : Services H :=
  if (s.get? v).isNone then s.insert v h else s

def isRegistered (s : Services H) (v : UInt8) : Bool := (s.get? v).isSome

def registered (s : Services H) : List UInt8 :=
  ((List.range 256).map UInt8.ofNat).filter s.isRegistered

@[simp] theorem get?_empty (v : UInt8) : (empty : Services H).get? v = none := by
  simp [get?, empty]

@[simp] theorem get?_put (s : Services H) (v u : UInt8) (h : Option H) :
    (s.put v h).get? u = if v = u then h else s.get? u := by
  simp [get?, put, Vector.getElem_set, UInt8.toNat_inj]

end Services
end RealMode
