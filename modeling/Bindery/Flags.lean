import Bindery.Text.Blank
import Bindery.Text.Hexadecimal

/-!
# Flags of declarations

A sixteen-bit word of which eight bits have names. `Flags.text` lists the names that are set, then
the other bits as one number in base sixteen; `Flags.ofText?` reads such a list back.
-/

namespace Bindery

structure Flags where
  word : BitVec 16
  deriving DecidableEq

namespace Flags

def none : Flags := ⟨0#16⟩

/-- Left out of the generated code. -/
def ignored : Flags := ⟨1#16⟩

def valueType : Flags := ⟨2#16⟩

/-- The values of the enumeration combine bit by bit. -/
def bitmask : Flags := ⟨4#16⟩

def readOnly : Flags := ⟨8#16⟩

/-- A forward declaration, without a body. -/
def incomplete : Flags := ⟨16#16⟩

/-- Made by the toolchain, not found in a header. -/
def synthesized : Flags := ⟨32#16⟩

/-- Cut off from the graph, its slot kept. -/
def removed : Flags := ⟨64#16⟩

def renamed : Flags := ⟨128#16⟩

instance : Inhabited Flags := ⟨none⟩

instance : Union Flags := ⟨fun f g => ⟨f.word ||| g.word⟩⟩

/-- Every bit of `g` is set in `f`. -/
def has (f g : Flags) : Bool := f.word &&& g.word == g.word

theorem word_union (f g : Flags) : (f ∪ g).word = f.word ||| g.word := rfl

theorem has_iff {f g : Flags} : f.has g ↔ f.word &&& g.word = g.word := by
  simp [has]

theorem has_union_right (f g : Flags) : (f ∪ g).has g := by
  rw [has_iff, word_union]
  ext i
  simp only [BitVec.getElem_and, BitVec.getElem_or]
  cases g.word[i] <;> simp

/-- Setting flags clears none. -/
theorem has_union_of_has {f h : Flags} (g : Flags) (hf : f.has h) : (f ∪ g).has h := by
  rw [has_iff, word_union, ← has_iff.1 hf]
  ext i
  simp only [BitVec.getElem_and, BitVec.getElem_or]
  cases f.word[i] <;> simp

/-- Setting what is set already changes nothing. -/
theorem union_eq_left {f g : Flags} (h : f.has g) : f ∪ g = f := by
  suffices e : f.word ||| g.word = f.word from congrArg Flags.mk e
  rw [← has_iff.1 h]
  ext i
  simp only [BitVec.getElem_and, BitVec.getElem_or]
  cases f.word[i] <;> simp

/-- The named flags in the order of their bits. -/
def names : List (String × Flags) :=
  [("IGNORED", ignored), ("VALUE_TYPE", valueType), ("FLAGS_ENUM", bitmask),
    ("READ_ONLY", readOnly), ("INCOMPLETE", incomplete), ("SYNTHESIZED", synthesized),
    ("REMOVED", removed), ("RENAMED", renamed)]

/-- The bits that have no name. -/
def unnamed (f : Flags) : BitVec 16 := f.word &&& 0xFF00#16

def text (f : Flags) : String :=
  let named := (names.filter fun p => f.has p.2).map Prod.fst
  let rest := if f.unnamed = 0 then [] else
    ["0x" ++ String.ofList (Text.hexDigits f.unnamed.toNat)]
  " | ".intercalate (named ++ rest)

/-- A number of at least one digit in base sixteen, with an optional plus sign. -/
def hexNumber? (s : List Char) : Option Nat :=
  let digits := match s with
    | '+' :: r => r
    | s => s
  if digits.isEmpty then Option.none else Text.hexValue? digits

def ofPart? (s : List Char) : Option Flags :=
  match s with
  | '0' :: 'x' :: r => do
    let n ← hexNumber? r
    guard (n < 0x10000)
    return ⟨BitVec.ofNat 16 n⟩
  | s => names.lookup (String.ofList s)

/-- A blank text has no flag; otherwise every part between bars is a name or a number. -/
def ofText? (s : String) : Option Flags :=
  if s.toList.all Text.isBlank then some none
  else (s.toList.splitOn '|').foldlM (fun f part => (ofPart? (Text.trim part)).map (f ∪ ·)) none

end Flags

end Bindery
