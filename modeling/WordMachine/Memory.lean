import WordMachine.Word

/-!
# Memory

A memory is an array of words whose length is its size, a power of two, at least 16 and at most the
65536 that a word can address. Reads and writes reduce their address modulo the size, so none can
leave the array.
-/

namespace WordMachine

structure MemorySize where
  words : Nat
  isPowerOfTwo : words.isPowerOfTwo
  words_ge : 16 ≤ words
  words_le : words ≤ 65536
  deriving DecidableEq

namespace MemorySize

def ofWords? (n : Nat) : Option MemorySize :=
  if h : 1 <<< n.log2 = n ∧ 16 ≤ n ∧ n ≤ 65536 then
    some ⟨n, ⟨n.log2, by rw [← Nat.one_shiftLeft, h.1]⟩, h.2.1, h.2.2⟩
  else none

def standard : MemorySize := ⟨4096, ⟨12, by decide⟩, by decide, by decide⟩

instance : Inhabited MemorySize := ⟨standard⟩

theorem words_pos (s : MemorySize) : 0 < s.words := by
  have := s.words_ge
  omega

def slot (s : MemorySize) (address : Word) : Nat := address.toNat % s.words

theorem slot_lt (s : MemorySize) (address : Word) : s.slot address < s.words :=
  Nat.mod_lt _ s.words_pos

def wrap (s : MemorySize) (address : Word) : Word := UInt16.ofNat (s.slot address)

theorem toNat_wrap (s : MemorySize) (address : Word) :
    (s.wrap address).toNat = address.toNat % s.words := by
  have h := s.slot_lt address
  have hw := s.words_le
  simp only [wrap, UInt16.toNat_ofNat']
  exact Nat.mod_eq_of_lt (by omega)

@[simp] theorem slot_wrap (s : MemorySize) (address : Word) :
    s.slot (s.wrap address) = s.slot address := by
  simp [slot, toNat_wrap]

def mask (s : MemorySize) : Word := UInt16.ofNat (s.words - 1)

end MemorySize

structure Memory where
  size : MemorySize
  cells : Array Word
  size_cells : cells.size = size.words
  deriving DecidableEq

namespace Memory

def zero (size : MemorySize) : Memory where
  size := size
  cells := Array.replicate size.words 0
  size_cells := by simp

theorem slot_lt (m : Memory) (address : Word) : m.size.slot address < m.cells.size := by
  rw [m.size_cells]
  exact m.size.slot_lt address

def read (m : Memory) (address : Word) : Word :=
  have := m.slot_lt address
  m.cells[m.size.slot address]

theorem getElem?_slot (m : Memory) (address : Word) :
    m.cells[m.size.slot address]? = some (m.read address) :=
  Array.getElem?_eq_getElem (m.slot_lt address)

def write (m : Memory) (address value : Word) : Memory where
  size := m.size
  cells := m.cells.set (m.size.slot address) value (m.slot_lt address)
  size_cells := by simp [m.size_cells]

/-- The words fill the cells from address 0. Words past the capacity are dropped, and cells past
the words keep their value. -/
def load (m : Memory) (words : Array Word) : Memory where
  size := m.size
  cells := Array.ofFn fun i : Fin m.cells.size => words[i.val]?.getD m.cells[i]
  size_cells := by simp [m.size_cells]

def clear (m : Memory) : Memory := zero m.size

@[simp] theorem size_write (m : Memory) (a v : Word) : (m.write a v).size = m.size := rfl

theorem read_load (m : Memory) (ws : Array Word) (a : Word) :
    (m.load ws).read a = ws[m.size.slot a]?.getD (m.read a) := by
  simp [read, load]

theorem read_zero (s : MemorySize) (a : Word) : (zero s).read a = 0 := by
  simp [read, zero]

end Memory

end WordMachine
