import Bindery.Proofs.Dump.Words

/-!
# Spellings of dumps

How a dump is written: `Spells` says by which tokens, `Laid` how tokens stand in a text. Names may
be keywords. What may be left to the writer is left open: `class` or `struct`, a comma after the
last item, whether `void` is written as a result, and the gaps between tokens.
-/

namespace Bindery

namespace Dump

/-- A name of words with a space between two of them. -/
def IsName (n : String) : Prop :=
  ∃ ws : List String, ws ≠ [] ∧ (∀ w ∈ ws, IsIdent w) ∧ n = " ".intercalate ws

def IsArraySize (s : String) : Prop :=
  s ≠ "" ∧ Text.trim s.toList = s.toList ∧ ']' ∉ s.toList ∧ ¬ ['/', '/'] <+: s.toList

def IsInitializer (v : String) : Prop :=
  v ≠ "" ∧ Text.trim v.toList = v.toList ∧
    (∀ c ∈ v.toList, c ≠ ',' ∧ c ≠ '\x7d' ∧ ¬ IsLineEnd c) ∧ ¬ ['/', '/'] <:+: v.toList

end Dump

namespace TypeRef

/-- Types to which a pointer or an array suffix may be added. -/
def isPlain : TypeRef → Bool
  | .named _ | .specialization _ _ | .pointer _ => true
  | .array _ _ | .function _ _ => false

mutual

/-- Types that have a spelling of their own. -/
def IsProper : TypeRef → Prop
  | .named n => Dump.IsName n
  | .pointer t => t.isPlain ∧ t.IsProper
  | .array t size => t.isPlain ∧ t.IsProper ∧ ∀ s ∈ size, Dump.IsArraySize s
  | .specialization n args => Dump.IsIdent n ∧ args ≠ [] ∧ AllProper args
  | .function r ps => r.IsProper ∧ AllProper ps

def AllProper : List TypeRef → Prop
  | [] => True
  | t :: ts => t.IsProper ∧ AllProper ts

end

end TypeRef

namespace Dump

/-! ### Tokens -/

inductive Token where
  | word (w : String)
  | sign (w : String)
  | quoted (s : String)
  | value (v : String)
  | type (t : TypeRef)

namespace Token

def text : Token → List Char
  | .word w | .sign w => w.toList
  | .quoted s => '"' :: (s.toList ++ ['"'])
  | .value v => v.toList
  | .type t => t.spelling.toList

def signs : List String := ["\x7b", "\x7d", "(", ")", ":", ";", ",", "=", "->"]

def IsProper : Token → Prop
  | .word w => IsIdent w
  | .sign w => w ∈ signs
  | .quoted s => '"' ∉ s.toList
  | .value v => IsInitializer v
  | .type t => t.IsProper

/-- Whether the token stands for itself if `m` follows: a word must not go on there, and a slash at
the end of an initializer must not become a comment. -/
def MayEnd (m : List Char) : Token → Prop
  | .word _ => EndsWord m
  | .value v => v.toList.getLast? = some '/' → m.head? ≠ some '/'
  | _ => True

end Token

/-- The text consists of the tokens, with gaps before, between and after them. -/
def Laid : List Token → List Char → Prop
  | [], i => IsLastGap i
  | t :: ts, i => ∃ g m, IsGap g ∧ t.IsProper ∧ t.MayEnd m ∧ i = g ++ (t.text ++ m) ∧ Laid ts m

/-- Lists of tokens with commas between two of them. -/
def commas : List (List Token) → List Token
  | [] => []
  | ts :: tss => ts ++ tss.flatMap fun us => .sign "," :: us

end Dump

def Parameter.tokens (p : Parameter) : List Dump.Token :=
  [.word p.name, .sign ":", .type p.type]

namespace Dump

def EnumItem.tokens (i : EnumItem) : List Token :=
  .word i.name :: i.value.elim [] fun v => [.sign "=", .value v]

/-! ### Spellings -/

/-- A result, which may be left out if it is `void`. -/
def SpellsResult (returns : TypeRef) (ts : List Token) : Prop :=
  ts = [.sign "->", .type returns] ∨ returns = .void ∧ ts = []

/-- Name, parameters and result of a function or method. -/
def SpellsSignature (name : String) (parameters : List Parameter) (returns : TypeRef)
    (ts : List Token) : Prop :=
  ∃ us, SpellsResult returns us ∧ ts = .word name :: .sign "(" ::
    (commas (parameters.map Parameter.tokens) ++ .sign ")" :: (us ++ [.sign ";"]))

/-- One spelling after the other. -/
def SpellsAll {α : Type} (S : α → List Token → Prop) : List α → List Token → Prop
  | [], ts => ts = []
  | x :: xs, ts => ∃ us vs, S x us ∧ SpellsAll S xs vs ∧ ts = us ++ vs

def Member.Spells : Member → List Token → Prop
  | .field name type, ts =>
    ts = [.word "field", .word name, .sign ":", .type type, .sign ";"]
  | .method name parameters returns, ts =>
    ∃ us, SpellsSignature name parameters returns us ∧ ts = .word "method" :: us

/-- Members in braces. -/
def SpellsBody (members : List Member) (ts : List Token) : Prop :=
  ∃ us, SpellsAll Member.Spells members us ∧ ts = .sign "\x7b" :: (us ++ [.sign "\x7d"])

/-- Items in braces, with a comma after the last one if the writer likes. -/
def SpellsItems (items : List EnumItem) (ts : List Token) : Prop :=
  ∃ us, (us = [] ∨ items ≠ [] ∧ us = [.sign ","]) ∧
    ts = .sign "\x7b" :: (commas (items.map EnumItem.tokens) ++ us ++ [.sign "\x7d"])

mutual

def Entry.Spells : Entry → List Token → Prop
  | .namespace name entries, ts => ∃ us, Entry.SpellsEach entries us ∧
    ts = .word "namespace" :: .word name :: .sign "\x7b" :: (us ++ [.sign "\x7d"])
  | .record name members, ts => ∃ w us, (w = "class" ∨ w = "struct") ∧
    members.elim (us = [.sign ";"]) (SpellsBody · us) ∧ ts = .word w :: .word name :: us
  | .enumeration name isBitmask items, ts => ∃ us, SpellsItems items us ∧
    ts = .word "enum" :: .word name ::
      ((if isBitmask then [.sign ":", .word "flags"] else []) ++ us)
  | .alias name target, ts =>
    ts = [.word "typedef", .word name, .sign "=", .type target, .sign ";"]
  | .function name parameters returns, ts =>
    ∃ us, SpellsSignature name parameters returns us ∧ ts = .word "fn" :: us

def Entry.SpellsEach : List Entry → List Token → Prop
  | [], ts => ts = []
  | e :: es, ts => ∃ us vs, e.Spells us ∧ Entry.SpellsEach es vs ∧ ts = us ++ vs

end

def Product.Spells : Product → List Token → Prop
  | .extension owner members, ts =>
    ∃ us, SpellsBody members us ∧ ts = .word "extend" :: .word owner :: us
  | .entry e, ts => e.Spells ts

def Block.Spells : Block → List Token → Prop
  | .unit file entries, ts => ∃ us, Entry.SpellsEach entries us ∧
    ts = .word "unit" :: .quoted file :: .sign "\x7b" :: (us ++ [.sign "\x7d"])
  | .generated file products, ts => ∃ us, SpellsAll Product.Spells products us ∧
    ts = .word "generated" :: .quoted file :: .sign "\x7b" :: (us ++ [.sign "\x7d"])

end Dump

/-- The text is a spelling of the dump. -/
def Dump.IsSpelt (d : Dump) (text : List Char) : Prop :=
  ∃ ts, SpellsAll Block.Spells d ts ∧ Laid ts text

namespace Dump

open Bindery.Dump.Parser

variable {t : Token} {ts us : List Token} {i m : List Char} {c : Char}

/-! ### First tokens -/

theorem Entry.spellsEach_iff : ∀ {es : List Entry} {ts : List Token},
    Entry.SpellsEach es ts ↔ SpellsAll Entry.Spells es ts
  | [], ts => Iff.rfl
  | e :: es, ts => by simp only [Entry.SpellsEach, SpellsAll, Entry.spellsEach_iff]

end Dump

end Bindery
