import RealMode.Proofs.EncodingLength
import RealMode.Proofs.InstructionReach

/-! # Listings tile the code -/
namespace RealMode

namespace Bus

variable {M : Type} [Bus M]

theorem toList_getBytes (m : M) (segment offset : UInt16) (count : Nat) :
    (getBytes m segment offset count).data.toList =
      (List.range count).map fun i => getByte m segment (offset + UInt16.ofNat i) := by
  apply List.ext_getElem
  · simp [getBytes, tabulate]
  · intro i _ _
    simp [getBytes, tabulate]

theorem toList_getBytes_add (m : M) (segment offset : UInt16) (a b : Nat) :
    (getBytes m segment offset (a + b)).data.toList =
      (getBytes m segment offset a).data.toList ++
        (getBytes m segment (offset + UInt16.ofNat a) b).data.toList := by
  simp only [toList_getBytes, List.range_add, List.map_append, List.map_map, Function.comp_def,
    UInt16.ofNat_add, UInt16.add_assoc]

end Bus

namespace ListedInstruction

def span : List ListedInstruction → Nat
  | [] => 0
  | x :: xs => x.bytes.size + span xs

def code (xs : List ListedInstruction) : List UInt8 := xs.flatMap fun x => x.bytes.data.toList

@[simp] theorem span_nil : span [] = 0 := rfl

@[simp] theorem span_cons (x : ListedInstruction) (xs : List ListedInstruction) :
    span (x :: xs) = x.bytes.size + span xs := rfl

@[simp] theorem code_cons (x : ListedInstruction) (xs : List ListedInstruction) :
    code (x :: xs) = x.bytes.data.toList ++ code xs := List.flatMap_cons

end ListedInstruction

open ListedInstruction

namespace Cpu

variable {M H : Type} [Bus M]

def decodedAt (c : Cpu M H) (ip : UInt16) : Decoded :=
  decodeAt c.memory c.regs c.model c.regs.cs ip

def listing (c : Cpu M H) : Nat → UInt16 → List ListedInstruction
  | 0, _ => []
  | n + 1, ip =>
    c.listed (c.decodedAt ip) ip ::
      c.listing n (ip + UInt16.ofNat (c.decodedAt ip).instruction.length)

theorem length_listing (c : Cpu M H) (n : Nat) (ip : UInt16) : (c.listing n ip).length = n := by
  induction n generalizing ip with
  | zero => rfl
  | succ n ih => rw [listing, List.length_cons, ih]

theorem size_listed (c : Cpu M H) (d : Decoded) (ip : UInt16) :
    (c.listed d ip).bytes.size = d.instruction.length := Bus.size_getBytes ..

structure EntryAt (c : Cpu M H) (ip : UInt16) (x : ListedInstruction) : Prop where
  address : x.address = physical c.regs.cs ip
  instruction : x.instruction = (c.decodedAt ip).instruction
  bytes : x.bytes = Bus.getBytes c.memory c.regs.cs ip x.bytes.size
  size_eq : x.bytes.size = x.instruction.length
  size_pos : 0 < x.bytes.size
  size_le : x.bytes.size ≤ 20

theorem entryAt_listed (c : Cpu M H) (ip : UInt16) : c.EntryAt ip (c.listed (c.decodedAt ip) ip) := by
  have hsize := c.size_listed (c.decodedAt ip) ip
  obtain ⟨hpos, hle⟩ := length_decode (CodeView.ofBus c.memory c.regs c.model c.regs.cs ip)
  constructor
  · rfl
  · rfl
  · rw [hsize]
    rfl
  · exact hsize
  · rw [hsize]
    exact hpos
  · rw [hsize]
    exact hle

theorem entryAt_listing {c : Cpu M H} {n k : Nat} {ip : UInt16} {x : ListedInstruction}
    (hx : (c.listing n ip)[k]? = some x) :
    c.EntryAt (ip + UInt16.ofNat (span ((c.listing n ip).take k))) x := by
  induction n generalizing k ip with
  | zero => exact nomatch hx
  | succ n ih =>
    cases k with
    | zero =>
      obtain rfl : c.listed (c.decodedAt ip) ip = x := Option.some.inj hx
      rw [List.take_zero, span_nil, show ip + UInt16.ofNat 0 = ip from UInt16.add_zero ip]
      exact c.entryAt_listed ip
    | succ k =>
      have hspan : span ((c.listing (n + 1) ip).take (k + 1)) =
          (c.decodedAt ip).instruction.length + span ((c.listing n
            (ip + UInt16.ofNat (c.decodedAt ip).instruction.length)).take k) := by
        rw [listing, List.take_succ_cons, span_cons, size_listed]
      rw [hspan, UInt16.ofNat_add, ← UInt16.add_assoc]
      exact ih hx

/-- The bytes of a listing are the bytes of the segment, in their order. -/
theorem code_listing (c : Cpu M H) (n : Nat) (ip : UInt16) :
    code (c.listing n ip) =
      (Bus.getBytes c.memory c.regs.cs ip (span (c.listing n ip))).data.toList := by
  induction n generalizing ip with
  | zero => rfl
  | succ n ih =>
    rw [listing, code_cons, ih, span_cons, Bus.toList_getBytes_add, size_listed]
    rfl

theorem listFrom_eq_listing (c : Cpu M H) (n : Nat) (ip : UInt16)
    (out : Array (Decoded × UInt16)) :
    (c.listFrom n ip out).toList.map (fun (d, ip) => c.listed d ip) =
      out.toList.map (fun (d, ip) => c.listed d ip) ++ c.listing n ip := by
  induction n generalizing ip out with
  | zero => exact (List.append_nil _).symm
  | succ n ih =>
    rw [listFrom, ih, Array.toList_push, List.map_append, List.append_assoc]
    rfl

/-- Disassembly answers the listing, and it leaves notes and nothing else. -/
theorem disassemble_eq (c : Cpu M H) {capacity n : Nat} (h : n ≤ capacity) :
    ∃ ns, disassemble capacity n c = .ok (some (c.listing n c.regs.ip)) (c.noteAll ns) := by
  have hentries := c.listFrom_eq_listing n c.regs.ip #[]
  refine ⟨(c.listFrom n c.regs.ip #[]).toList.flatMap fun (d, ip) => d.notes c.regs.cs ip, ?_⟩
  simp only [disassemble, if_neg (Nat.not_lt.mpr h)]
  exact congrArg (fun xs => EStateM.Result.ok (some xs) _) hentries

theorem disassemble_of_lt (c : Cpu M H) {capacity n : Nat} (h : capacity < n) :
    disassemble capacity n c = .ok none c := by
  simp only [disassemble, if_pos h]
  rfl

/-- The first entry is the instruction that a running processor executes next. -/
theorem step_listing [HostService M H] {c : Cpu M H} {n : Nat} {x : ListedInstruction}
    (hx : (c.listing n c.regs.ip)[0]? = some x) :
    step c = if c.halted then .ok () c else x.instruction.execute c.atInstruction := by
  split
  next hhalted => exact step_of_halted hhalted
  next hrunning =>
    have hentry := (entryAt_listing hx).instruction
    rw [List.take_zero, span_nil, show c.regs.ip + UInt16.ofNat 0 = c.regs.ip from
      UInt16.add_zero _] at hentry
    rw [step_of_running (Bool.eq_false_iff.mpr hrunning), hentry]
    rfl

end Cpu
end RealMode
