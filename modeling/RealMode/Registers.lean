import RealMode.Word

/-! # Registers -/
namespace RealMode

inductive Reg16 where
  | ax
  | cx
  | dx
  | bx
  | sp
  | bp
  | si
  | di
  deriving DecidableEq, Repr

inductive Reg8 where
  | al
  | cl
  | dl
  | bl
  | ah
  | ch
  | dh
  | bh
  deriving DecidableEq, Repr

inductive SegReg where
  | es
  | cs
  | ss
  | ds
  deriving DecidableEq, Repr

namespace Reg16

def ofIndex (i : Nat) : Reg16 :=
  match i % 8 with
  | 0 => ax
  | 1 => cx
  | 2 => dx
  | 3 => bx
  | 4 => sp
  | 5 => bp
  | 6 => si
  | _ => di

def all : List Reg16 := [ax, cx, dx, bx, sp, bp, si, di]

def name : Reg16 → String
  | ax => "ax"
  | cx => "cx"
  | dx => "dx"
  | bx => "bx"
  | sp => "sp"
  | bp => "bp"
  | si => "si"
  | di => "di"

end Reg16

namespace Reg8

def ofIndex (i : Nat) : Reg8 :=
  match i % 8 with
  | 0 => al
  | 1 => cl
  | 2 => dl
  | 3 => bl
  | 4 => ah
  | 5 => ch
  | 6 => dh
  | _ => bh

def all : List Reg8 := [al, cl, dl, bl, ah, ch, dh, bh]

def name : Reg8 → String
  | al => "al"
  | cl => "cl"
  | dl => "dl"
  | bl => "bl"
  | ah => "ah"
  | ch => "ch"
  | dh => "dh"
  | bh => "bh"

def whole : Reg8 → Reg16
  | al | ah => .ax
  | cl | ch => .cx
  | dl | dh => .dx
  | bl | bh => .bx

def isHigh : Reg8 → Bool
  | al | cl | dl | bl => false
  | ah | ch | dh | bh => true

end Reg8

namespace SegReg

/-- Only the low two bits of a segment field count. -/
def ofIndex (i : Nat) : SegReg :=
  match i % 4 with
  | 0 => es
  | 1 => cs
  | 2 => ss
  | _ => ds

def all : List SegReg := [es, cs, ss, ds]

def name : SegReg → String
  | es => "es"
  | cs => "cs"
  | ss => "ss"
  | ds => "ds"

end SegReg

structure Registers where
  ax : UInt16
  cx : UInt16
  dx : UInt16
  bx : UInt16
  sp : UInt16
  bp : UInt16
  si : UInt16
  di : UInt16
  es : UInt16
  cs : UInt16
  ss : UInt16
  ds : UInt16
  ip : UInt16
  deriving DecidableEq, Repr

namespace Registers

def zero : Registers := ⟨0, 0, 0, 0, 0, 0, 0, 0, 0, 0, 0, 0, 0⟩

def get (r : Registers) : Reg16 → UInt16
  | .ax => r.ax
  | .cx => r.cx
  | .dx => r.dx
  | .bx => r.bx
  | .sp => r.sp
  | .bp => r.bp
  | .si => r.si
  | .di => r.di

def set (r : Registers) (reg : Reg16) (v : UInt16) : Registers :=
  match reg with
  | .ax => { r with ax := v }
  | .cx => { r with cx := v }
  | .dx => { r with dx := v }
  | .bx => { r with bx := v }
  | .sp => { r with sp := v }
  | .bp => { r with bp := v }
  | .si => { r with si := v }
  | .di => { r with di := v }

def getSeg (r : Registers) : SegReg → UInt16
  | .es => r.es
  | .cs => r.cs
  | .ss => r.ss
  | .ds => r.ds

def setSeg (r : Registers) (seg : SegReg) (v : UInt16) : Registers :=
  match seg with
  | .es => { r with es := v }
  | .cs => { r with cs := v }
  | .ss => { r with ss := v }
  | .ds => { r with ds := v }

def get8 (r : Registers) (reg : Reg8) : UInt8 :=
  if reg.isHigh then highByte (r.get reg.whole) else lowByte (r.get reg.whole)

def set8 (r : Registers) (reg : Reg8) (v : UInt8) : Registers :=
  let old := r.get reg.whole
  r.set reg.whole (if reg.isHigh then wordOf (lowByte old) v else wordOf v (highByte old))

/-- Adds a signed amount, modulo 65536. -/
def adjust (r : Registers) (reg : Reg16) (delta : Int) : Registers :=
  r.set reg (UInt16.ofInt ((r.get reg).toNat + delta))

@[simp] theorem get_set (r : Registers) (a b : Reg16) (v : UInt16) :
    (r.set a v).get b = if a = b then v else r.get b := by
  cases a <;> cases b <;> rfl

@[simp] theorem getSeg_setSeg (r : Registers) (a b : SegReg) (v : UInt16) :
    (r.setSeg a v).getSeg b = if a = b then v else r.getSeg b := by
  cases a <;> cases b <;> rfl

@[simp] theorem getSeg_set (r : Registers) (a : Reg16) (s : SegReg) (v : UInt16) :
    (r.set a v).getSeg s = r.getSeg s := by
  cases a <;> cases s <;> rfl

@[simp] theorem get_setSeg (r : Registers) (s : SegReg) (a : Reg16) (v : UInt16) :
    (r.setSeg s v).get a = r.get a := by
  cases s <;> cases a <;> rfl

@[simp] theorem ip_set (r : Registers) (a : Reg16) (v : UInt16) : (r.set a v).ip = r.ip := by
  cases a <;> rfl

@[simp] theorem ip_setSeg (r : Registers) (s : SegReg) (v : UInt16) :
    (r.setSeg s v).ip = r.ip := by
  cases s <;> rfl

theorem set_set (r : Registers) (a : Reg16) (v w : UInt16) : (r.set a v).set a w = r.set a w := by
  cases a <;> rfl

theorem set_comm (r : Registers) {a b : Reg16} (v w : UInt16) (h : a ≠ b) :
    (r.set a v).set b w = (r.set b w).set a v := by
  cases a <;> cases b <;> first | rfl | exact absurd rfl h

theorem set_get (r : Registers) (a : Reg16) : r.set a (r.get a) = r := by
  cases a <;> rfl

theorem adjust_zero (r : Registers) (a : Reg16) : r.adjust a 0 = r := by
  have hv : UInt16.ofInt ((r.get a).toNat + 0) = r.get a := by
    apply UInt16.toNat_inj.mp
    have := (r.get a).toNat_lt
    rw [toNat_ofInt]
    omega
  rw [adjust, hv, set_get]

theorem adjust_adjust (r : Registers) (a : Reg16) (x y : Int) :
    (r.adjust a x).adjust a y = r.adjust a (x + y) := by
  have hv : UInt16.ofInt ((UInt16.ofInt ((r.get a).toNat + x)).toNat + y) =
      UInt16.ofInt ((r.get a).toNat + (x + y)) := by
    apply UInt16.toNat_inj.mp
    simp only [toNat_ofInt]
    omega
  simp only [adjust, get_set, ↓reduceIte, set_set, hv]

theorem adjust_comm (r : Registers) {a b : Reg16} (x y : Int) (h : a ≠ b) :
    (r.adjust a x).adjust b y = (r.adjust b y).adjust a x := by
  simp only [adjust, get_set, h, Ne.symm h, ↓reduceIte]
  exact set_comm r _ _ h

theorem get8_set8 (r : Registers) (a b : Reg8) (v : UInt8) :
    (r.set8 a v).get8 b = if a = b then v else r.get8 b := by
  cases a <;> cases b <;> simp [set8, get8, Reg8.whole, Reg8.isHigh]

end Registers
end RealMode
