import RealMode.Pc.Board
import RealMode.Proofs.MemorySimulation
import RealMode.Proofs.OverwrittenMemory

/-! # The board as a lawful bus -/
namespace RealMode.Pc.Board

theorem read_of_lt (b : Board) {a : Nat} (h : a < memorySize) : b.read a = b.ram.read a := by
  rw [read, Nat.mod_eq_of_lt h]

theorem write_of_lt (b : Board) {a : Nat} (v : UInt8) (h : a < memorySize) :
    b.write a v = { b with ram := b.ram.write a v } := by
  rw [write, Nat.mod_eq_of_lt h]

theorem writeEach_eq (b : Board) (address : Nat → Nat) (data : ByteArray)
    (h : ∀ i, address i < memorySize) :
    writeEach write address data b = { b with ram := writeEach Ram.write address data b.ram } := by
  refine Bus.Simulation.fold (R := fun k r => k = { b with ram := r }) rfl ?_
  rintro i _ _ r rfl
  exact write_of_lt _ _ (h i)

instance : LawfulBus Board where
  read_write b v a k ha hk := by
    show (b.write a v).read k = _
    rw [write_of_lt b v ha, read_of_lt _ hk]
    exact (b.ram.read_write a k v ha).trans (by rw [← read_of_lt b hk]; rfl)
  Devices := Board
  devices b := { b with ram := .blank }
  devices_write _ _ _ := rfl
  ext {b k} h hd := by
    have hram : b.ram = k.ram := by
      apply Ram.ext_read
      intro a ha
      rw [← read_of_lt b ha, ← read_of_lt k ha]
      exact h a ha
    cases b
    cases k
    simp only [mk.injEq, true_and] at hd hram ⊢
    exact ⟨hram, hd⟩
  readBlock_eq b n a ha := by
    show b.ram.readBlock (a % memorySize) n = _
    rw [Nat.mod_eq_of_lt ha, Ram.readBlock_eq]
    congr 1
    funext i
    exact (read_of_lt b (Nat.mod_lt _ (by decide))).symm
  writeBlock_eq b data a ha := by
    show { b with ram := b.ram.writeBlock (a % memorySize) data } = _
    rw [Nat.mod_eq_of_lt ha, Ram.writeBlock_eq]
    exact (writeEach_eq b _ data fun i => Nat.mod_lt _ (by decide)).symm

theorem ram_afterPortIn (b : Board) (port : UInt16) : (b.afterPortIn port).ram = b.ram := by
  unfold afterPortIn
  split
  next => rfl
  next => rfl

instance : QuietPorts Board where
  read_portIn b port a := congrArg (Ram.read · (a % memorySize)) (b.ram_afterPortIn port)
  read_portOut _ _ _ _ := rfl

theorem page_onDisplay (b : Board) (f : Display → Display) :
    (b.onDisplay f).page = (f b.display).page := by
  have hsize := (f b.display).page.size_eq
  have hfit : textPageBase + (f b.display).page.bytes.size ≤ memorySize := by
    rw [hsize]
    decide
  have hbytes : (b.onDisplay f).page.bytes = (f b.display).page.bytes := by
    show (b.ram.writeBlock textPageBase (f b.display).page.bytes).readBlock textPageBase pageSize = _
    rw [Ram.readBlock_eq]
    apply ByteArray.ext_getElem
    · rw [size_tabulate, hsize]
    · intro i hi hi'
      rw [size_tabulate] at hi
      have hlt : textPageBase + i < memorySize := by omega
      have hin : textPageBase ≤ textPageBase + i ∧
          textPageBase + i < textPageBase + (f b.display).page.bytes.size := by omega
      rw [getElem_tabulate, Nat.mod_eq_of_lt hlt, Ram.read_writeBlock _ _ hfit hlt, dif_pos hin]
      simp only [Nat.add_sub_cancel_left]
  cases h : (b.onDisplay f).page
  cases h' : (f b.display).page
  rw [h, h'] at hbytes
  cases hbytes
  rfl

theorem display_onDisplay (b : Board) (f : Display → Display) :
    (b.onDisplay f).display = f b.display := by
  rw [display, page_onDisplay]
  rfl

/-- The address of a byte that the screen does not show. -/
def OffPage (a : Nat) : Prop := a < textPageBase ∨ textPageBase + pageSize ≤ a

theorem read_onDisplay (b : Board) (f : Display → Display) {a : Nat} (ha : a < memorySize)
    (hoff : OffPage a) : (b.onDisplay f).read a = b.read a := by
  have hsize := (f b.display).page.size_eq
  have hfit : textPageBase + (f b.display).page.bytes.size ≤ memorySize := by
    rw [hsize]
    decide
  rw [read_of_lt _ ha, read_of_lt _ ha, onDisplay, Ram.read_writeBlock _ _ hfit ha, dif_neg]
  rw [hsize]
  rcases hoff with hbefore | hbehind <;> omega

end RealMode.Pc.Board
