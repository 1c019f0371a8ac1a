import Mathlib.Data.BitVec
import Mathlib.Tactic.IntervalCases

/-! Flat little-endian byte memory with 64-bit addresses. Address arithmetic wraps,
and a span of bytes is given by the distance from its first byte, so that no
statement needs a side condition on where a span ends. -/
namespace MCoroutine.General.ByteMemory

abbrev Word := BitVec 64

abbrev Memory := Word → BitVec 8

def Inside (base : Word) (count : Nat) (address : Word) : Prop := (address - base).toNat < count

instance (base : Word) (count : Nat) (address : Word) : Decidable (Inside base count address) :=
  inferInstanceAs (Decidable (_ < _))

def Apart (base : Word) (count : Nat) (other : Word) (size : Nat) : Prop :=
  ∀ address, Inside base count address → ¬ Inside other size address

def load (memory : Memory) (base : Word) : Word :=
  memory (base + 7#64) ++ memory (base + 6#64) ++ memory (base + 5#64) ++ memory (base + 4#64) ++
    memory (base + 3#64) ++ memory (base + 2#64) ++ memory (base + 1#64) ++ memory (base + 0#64)

def store (memory : Memory) (base value : Word) : Memory :=
  fun address => if Inside base 8 address then value.extractLsb'
    (8 * (address - base).toNat) 8 else memory address

theorem inside_offset (base : Word) (count offset : Nat) (bound : offset < count)
    (small : count ≤ 2^64) :
    Inside base count (base + BitVec.ofNat 64 offset) := by
  unfold Inside
  have distance : base + BitVec.ofNat 64 offset - base = BitVec.ofNat 64 offset := by
    rw [BitVec.add_comm,BitVec.add_sub_cancel]
  rw [distance,BitVec.toNat_ofNat,Nat.mod_eq_of_lt (by omega)]
  exact bound

private theorem distance_split (base address offset : Word) :
    address - base = address - (base + offset) + offset := by
  bv_omega

theorem inside_part (base address : Word) (offset size count : Nat) (room : offset + size ≤ count)
    (inside : Inside (base + BitVec.ofNat 64 offset) size address) :
    Inside base count address := by
  unfold Inside at *
  rw [distance_split base address (BitVec.ofNat 64 offset),BitVec.toNat_add,BitVec.toNat_ofNat]
  have reduced := Nat.mod_le offset (2^64)
  have bounded := Nat.mod_le ((address - (base + BitVec.ofNat 64 offset)).toNat + offset % 2^64)
    (2^64)
  omega

theorem apart_words (base : Word) (first second : Nat)
    (far : first + 8 ≤ second ∨ second + 8 ≤ first) (small : first < 2^32 ∧ second < 2^32) :
    Apart (base + BitVec.ofNat 64 first) 8 (base + BitVec.ofNat 64 second) 8 := by
  intro address inside other
  unfold Inside at inside other
  have split := distance_split base address (BitVec.ofNat 64 first)
  have same := distance_split base address (BitVec.ofNat 64 second)
  have toNat := congrArg BitVec.toNat (split.symm.trans same)
  rw [BitVec.toNat_add,BitVec.toNat_add,BitVec.toNat_ofNat,BitVec.toNat_ofNat] at toNat
  omega

theorem Apart.symm {base other : Word} {count size : Nat} (apart : Apart base count other size) :
    Apart other size base count :=
  fun address inside outside => apart address outside inside

theorem Apart.part {base other : Word} {count size : Nat} (apart : Apart base count other size)
    (offset part : Nat) (room : offset + part ≤ size) :
    Apart base count (other + BitVec.ofNat 64 offset) part :=
  fun address inside within => apart address inside
    (inside_part other address offset part size room within)

theorem store_inside (memory : Memory) (base value address : Word)
    (inside : Inside base 8 address) :
    store memory base value address = value.extractLsb' (8 * (address - base).toNat) 8 :=
  if_pos inside

theorem store_outside (memory : Memory) (base value address : Word)
    (outside : ¬ Inside base 8 address) :
    store memory base value address = memory address :=
  if_neg outside

private theorem inside_byte (base : Word) (offset : Nat) (bound : offset < 8) :
    Inside base 8 (base + BitVec.ofNat 64 offset) :=
  inside_offset base 8 offset bound (by omega)

theorem load_congr (memory other : Memory) (base : Word)
    (same : ∀ address, Inside base 8 address → memory address = other address) :
    load memory base = load other base := by
  unfold load
  rw [same _ (inside_byte base 0 (by omega)),same _ (inside_byte base 1 (by omega)),
    same _ (inside_byte base 2 (by omega)),same _ (inside_byte base 3 (by omega)),
    same _ (inside_byte base 4 (by omega)),same _ (inside_byte base 5 (by omega)),
    same _ (inside_byte base 6 (by omega)),same _ (inside_byte base 7 (by omega))]

theorem load_store_apart (memory : Memory) (base value other : Word)
    (apart : Apart base 8 other 8) :
    load (store memory base value) other = load memory other :=
  load_congr _ _ _ fun address inside => store_outside _ _ _ _ fun stored =>
    apart address stored inside

private theorem store_byte (memory : Memory) (base value : Word) (offset : Nat)
    (bound : offset < 8) :
    store memory base value (base + BitVec.ofNat 64 offset) = value.extractLsb' (8 * offset) 8 := by
  have distance : (base + BitVec.ofNat 64 offset - base).toNat = offset := by
    rw [BitVec.add_comm,BitVec.add_sub_cancel,BitVec.toNat_ofNat,Nat.mod_eq_of_lt (by omega)]
  rw [store_inside _ _ _ _ (inside_byte base offset bound),distance]

theorem load_store (memory : Memory) (base value : Word) :
    load (store memory base value) base = value := by
  unfold load
  rw [store_byte _ _ _ 0 (by omega),store_byte _ _ _ 1 (by omega),store_byte _ _ _ 2 (by omega),
    store_byte _ _ _ 3 (by omega),store_byte _ _ _ 4 (by omega),store_byte _ _ _ 5 (by omega),
    store_byte _ _ _ 6 (by omega),store_byte _ _ _ 7 (by omega)]
  simp only [BitVec.append_assoc,BitVec.cast_eq]
  repeat rw [BitVec.extractLsb'_append_extractLsb'_eq_extractLsb' (by rfl)]
  exact BitVec.extractLsb'_eq_self

private theorem load_byte (memory : Memory) (base : Word) (offset : Nat) (bound : offset < 8) :
    (load memory base).extractLsb' (8 * offset) 8 = memory (base + BitVec.ofNat 64 offset) := by
  unfold load
  interval_cases offset <;>
    simp (disch := decide) only [BitVec.extractLsb'_append_eq_of_le,
      BitVec.extractLsb'_append_eq_of_add_le,
      BitVec.extractLsb'_eq_self,Nat.reduceMul,Nat.reduceSub]

theorem store_load (memory : Memory) (base address : Word) :
    store memory base (load memory base) address = memory address := by
  by_cases inside : Inside base 8 address
  · have place : base + BitVec.ofNat 64 (address - base).toNat = address := by
      rw [BitVec.ofNat_toNat,BitVec.setWidth_eq,BitVec.add_comm,BitVec.sub_add_cancel]
    rw [store_inside _ _ _ _ inside,load_byte memory base _ inside,place]
  · exact store_outside _ _ _ _ inside

/-- An array of words, each one a little-endian word of memory. -/
def Holds (memory : Memory) (base : Word) {count : Nat} (words : Fin count → Word) : Prop :=
  ∀ index : Fin count, load memory (base + BitVec.ofNat 64 (8 * index.val)) = words index

/-- The memory with an array of words written over the bytes at `base`. -/
def place (memory : Memory) (base : Word) {count : Nat} (words : Fin count → Word) : Memory :=
  fun address =>
    if inside : (address - base).toNat / 8 < count then
      (words ⟨_,inside⟩).extractLsb' (8 * ((address - base).toNat % 8)) 8
    else memory address

theorem place_holds (memory : Memory) (base : Word) {count : Nat} (words : Fin count → Word)
    (small : 8 * count ≤ 2^64) : Holds (place memory base words) base words := by
  intro index
  have bound := index.isLt
  have same : ∀ address, Inside (base + BitVec.ofNat 64 (8 * index.val)) 8 address →
      place memory base words address =
        store memory (base + BitVec.ofNat 64 (8 * index.val)) (words index) address := by
    intro address inside
    have distance : (address - base).toNat =
        (address - (base + BitVec.ofNat 64 (8 * index.val))).toNat + 8 * index.val := by
      unfold Inside at inside
      rw [distance_split base address (BitVec.ofNat 64 (8 * index.val)),BitVec.toNat_add,
        BitVec.toNat_ofNat,
        Nat.mod_eq_of_lt (by omega : 8 * index.val < 2^64),Nat.mod_eq_of_lt (by omega)]
    rw [store_inside _ _ _ _ inside]
    unfold Inside at inside
    have quotient : (address - base).toNat / 8 = index.val := by omega
    have remainder : (address - base).toNat % 8 =
        (address - (base + BitVec.ofNat 64 (8 * index.val))).toNat := by omega
    rw [place,dif_pos (by omega),remainder]
    congr 2
    exact Fin.ext quotient
  rw [load_congr _ _ _ same,load_store]

theorem place_outside (memory : Memory) (base : Word) {count : Nat} (words : Fin count → Word)
    (address : Word) (outside : ¬ Inside base (8 * count) address) :
    place memory base words address = memory address := by
  unfold Inside at outside
  exact dif_neg (by omega)

theorem Holds.congr {memory other : Memory} {base : Word} {count : Nat} {words : Fin count → Word}
    (held : Holds memory base words)
    (same : ∀ address, Inside base (8 * count) address → other address = memory address) :
    Holds other base words := by
  intro index
  have bound := index.isLt
  rw [load_congr other memory _ fun address inside =>
    same address (inside_part base address (8 * index.val) 8 (8 * count) (by omega) inside)]
  exact held index

end MCoroutine.General.ByteMemory
