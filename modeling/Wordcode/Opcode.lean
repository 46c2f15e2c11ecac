/-
# Opcodes — the closed catalog of operations

Sixty-one opcodes with one catalog row each.  A row is all that the rest of
the library knows about an operation without running it: how a listing spells
it, its category and role, and how each operand slot is read.  The number of
operands is not recorded a second time; it is the number of slots in the row.

The code of an opcode is its place in the declaration below, so codes are
contiguous and `ofCode?` is a look-up in `all`.  `ofCode?_code` and
`code_ofCode?` say that the two are inverse, and `ofMnemonic?_eq_some_iff`
that a listing may spell a mnemonic in any mixture of ASCII cases and in no
other way.
-/
namespace Wordcode

/-! ## Classifications -/

/-- The kinds of branch-target marker. -/
inductive Marker where
  /-- A `jtarg`: reached by jumps that skip forward. -/
  | forward
  /-- A `jloop`: reached by the jump that closes a loop. -/
  | loop
  /-- A `jfor`: the head of a for-loop, reached by the jump that closes it. -/
  | forLoop
deriving DecidableEq

namespace Marker

/-- Every kind of marker, in declaration order. -/
def all : List Marker := [.forward, .loop, .forLoop]

/-- The kind as messages spell it. -/
def text : Marker → String
  | .forward => "forward"
  | .loop => "loop"
  | .forLoop => "for-loop"

/-- Whether the jumps that name such a marker stand after it. -/
def isBackward : Marker → Bool
  | .forward => false
  | .loop | .forLoop => true

end Marker

/-- The kinds of jump. -/
inductive Branch where
  /-- Always taken: `jump`. -/
  | unconditional
  /-- Taken depending on a value: `jt` and `jf`. -/
  | conditional
deriving DecidableEq

namespace Branch

/-- Every kind of jump, in declaration order. -/
def all : List Branch := [.unconditional, .conditional]

/-- Whether a jump of this kind may name a marker of the given kind.  An
unconditional jump may close a loop or skip forward, a conditional one may
only skip forward. -/
def accepts : Branch → Marker → Bool
  | .unconditional, _ => true
  | .conditional, .forward => true
  | .conditional, _ => false

end Branch

/-- What executing an opcode does to control and to values. -/
inductive Role where
  /-- Redirects control. -/
  | branch (kind : Branch)
  /-- Names a place that a jump may go to. -/
  | marker (kind : Marker)
  /-- Produces a value that later instructions may read. -/
  | value
  /-- Writes to an existing location, such as an element of a collection. -/
  | mutator
  /-- Leaves the function. -/
  | terminal
  /-- Has an effect, or none, and produces no value. -/
  | effect
deriving DecidableEq

/-- How an operand slot is read. -/
inductive OperandKind where
  /-- A reference to a value produced earlier. -/
  | value
  /-- An index into the integer pool. -/
  | intConst
  /-- An index into the string pool. -/
  | strConst
  /-- An index into a table of types that functions do not carry. -/
  | typeConst
  /-- The index of an instruction. -/
  | target
  /-- A small number that stands for itself. -/
  | literal
deriving DecidableEq

namespace OperandKind

/-- Every operand kind, in declaration order. -/
def all : List OperandKind := [.value, .intConst, .strConst, .typeConst, .target, .literal]

/-- The kind as it is displayed. -/
def text : OperandKind → String
  | .value => "value"
  | .intConst => "int-const"
  | .strConst => "str-const"
  | .typeConst => "type-const"
  | .target => "target"
  | .literal => "literal"

end OperandKind

/-- The groups of the catalog, in the order of the codes. -/
inductive Category where
  | utility
  | branchTarget
  | branch
  | assertion
  | predicate
  | boolean
  | call
  | constant
  | arithmetic
  | bitwise
  | string
  | indexing
  | collection
deriving DecidableEq

namespace Category

/-- Every category, in declaration order. -/
def all : List Category :=
  [.utility, .branchTarget, .branch, .assertion, .predicate, .boolean, .call, .constant,
    .arithmetic, .bitwise, .string, .indexing, .collection]

/-- The number of a category: its place in the declaration. -/
def code (c : Category) : UInt8 := UInt8.ofNat c.ctorIdx

/-- The category with the given number. -/
def ofCode? (n : UInt8) : Option Category := all[n.toNat]?

/-- The category as it is displayed. -/
def text : Category → String
  | .utility => "utility"
  | .branchTarget => "branch-target"
  | .branch => "branch"
  | .assertion => "assertion"
  | .predicate => "predicate"
  | .boolean => "boolean"
  | .call => "call"
  | .constant => "constant"
  | .arithmetic => "arithmetic"
  | .bitwise => "bitwise"
  | .string => "string"
  | .indexing => "indexing"
  | .collection => "collection"

theorem ofCode?_code (c : Category) : ofCode? c.code = some c := by
  cases c <;> rfl

end Category

/-! ## The opcodes -/

/-- The operations.  Each is named by its mnemonic, except `isIn`, whose
mnemonic is `in`. -/
inductive Opcode where
  | nop | phi | mov | cmov
  | jtarg | jloop | jfor
  | jump | jt | jf
  | assert | atype
  | eq | neq | isIn | nin | lt | geq | gt | leq
  | and | not2 | or | xor | not | bool
  | sarg | call | ret | retv | tcall
  | intk | strk | boolk | typek
  | add | sub | mul | fdiv | mod | pow | div | min | max | neg | abs | floor | ceil
  | bitand | bitor | bitxor | bitanot | bitshr | bitshl | bitnot
  | cat | fmt
  | geti | seti | deli
  | len
deriving DecidableEq

/-- A row of the catalog. -/
structure CatalogRow where
  /-- How listings spell the opcode. -/
  mnemonic : String
  /-- The group it belongs to. -/
  category : Category
  /-- What executing it does. -/
  role : Role
  /-- How its operand slots are read, in order. -/
  operands : List OperandKind

namespace CatalogRow

/-- The row of an operation that computes a value from `count` values. -/
def compute (count : Nat) (mnemonic : String) (category : Category) : CatalogRow :=
  ⟨mnemonic, category, .value, List.replicate count .value⟩

/-- The row of a marker without operands. -/
def marker (kind : Marker) (mnemonic : String) : CatalogRow :=
  ⟨mnemonic, .branchTarget, .marker kind, []⟩

/-- The row of an operation that loads a constant. -/
def load (operand : OperandKind) (mnemonic : String) : CatalogRow :=
  ⟨mnemonic, .constant, .value, [operand]⟩

end CatalogRow

namespace Opcode

open CatalogRow in
/-- The catalog. -/
def row : Opcode → CatalogRow
  | .nop => ⟨"nop", .utility, .effect, []⟩
  | .phi => compute 2 "phi" .utility
  | .mov => compute 1 "mov" .utility
  | .cmov => compute 3 "cmov" .utility
  | .jtarg => marker .forward "jtarg"
  | .jloop => marker .loop "jloop"
  | .jfor => ⟨"jfor", .branchTarget, .marker .forLoop, [.value, .value, .target]⟩
  | .jump => ⟨"jump", .branch, .branch .unconditional, [.target]⟩
  | .jt => ⟨"jt", .branch, .branch .conditional, [.value, .target]⟩
  | .jf => ⟨"jf", .branch, .branch .conditional, [.value, .target]⟩
  | .assert => ⟨"assert", .assertion, .effect, [.value]⟩
  | .atype => ⟨"atype", .assertion, .effect, [.value, .typeConst]⟩
  | .eq => compute 2 "eq" .predicate
  | .neq => compute 2 "neq" .predicate
  | .isIn => compute 2 "in" .predicate
  | .nin => compute 2 "nin" .predicate
  | .lt => compute 2 "lt" .predicate
  | .geq => compute 2 "geq" .predicate
  | .gt => compute 2 "gt" .predicate
  | .leq => compute 2 "leq" .predicate
  | .and => compute 2 "and" .boolean
  | .not2 => compute 2 "not2" .boolean
  | .or => compute 2 "or" .boolean
  | .xor => compute 2 "xor" .boolean
  | .not => compute 1 "not" .boolean
  | .bool => compute 1 "bool" .boolean
  | .sarg => ⟨"sarg", .call, .effect, []⟩
  | .call => compute 2 "call" .call
  | .ret => ⟨"ret", .call, .terminal, [.value]⟩
  | .retv => ⟨"retv", .call, .terminal, []⟩
  | .tcall => ⟨"tcall", .call, .terminal, [.value, .value]⟩
  | .intk => load .intConst "intk"
  | .strk => load .strConst "strk"
  | .boolk => load .literal "boolk"
  | .typek => load .typeConst "typek"
  | .add => compute 2 "add" .arithmetic
  | .sub => compute 2 "sub" .arithmetic
  | .mul => compute 2 "mul" .arithmetic
  | .fdiv => compute 2 "fdiv" .arithmetic
  | .mod => compute 2 "mod" .arithmetic
  | .pow => compute 2 "pow" .arithmetic
  | .div => compute 2 "div" .arithmetic
  | .min => compute 2 "min" .arithmetic
  | .max => compute 2 "max" .arithmetic
  | .neg => compute 1 "neg" .arithmetic
  | .abs => compute 1 "abs" .arithmetic
  | .floor => compute 1 "floor" .arithmetic
  | .ceil => compute 1 "ceil" .arithmetic
  | .bitand => compute 2 "bitand" .bitwise
  | .bitor => compute 2 "bitor" .bitwise
  | .bitxor => compute 2 "bitxor" .bitwise
  | .bitanot => compute 2 "bitanot" .bitwise
  | .bitshr => compute 2 "bitshr" .bitwise
  | .bitshl => compute 2 "bitshl" .bitwise
  | .bitnot => compute 1 "bitnot" .bitwise
  | .cat => compute 2 "cat" .string
  | .fmt => compute 2 "fmt" .string
  | .geti => compute 2 "geti" .indexing
  | .seti => ⟨"seti", .indexing, .mutator, [.value, .value, .value]⟩
  | .deli => ⟨"deli", .indexing, .mutator, [.value, .value]⟩
  | .len => compute 1 "len" .collection

/-- How listings spell the opcode. -/
def mnemonic (op : Opcode) : String := op.row.mnemonic

/-- The group of the catalog that the opcode belongs to. -/
def category (op : Opcode) : Category := op.row.category

/-- What executing the opcode does. -/
def role (op : Opcode) : Role := op.row.role

/-- How the opcode reads its operand slots, in order. -/
def operandKinds (op : Opcode) : List OperandKind := op.row.operands

/-- The number of operands. -/
def arity (op : Opcode) : Nat := op.operandKinds.length

/-- No opcode has more operands than a word has slots. -/
theorem arity_le_three (op : Opcode) : op.arity ≤ 3 := by
  cases op <;> decide

/-! ## What follows from the role -/

/-- The kind of marker the opcode is, if it is one. -/
def marker? (op : Opcode) : Option Marker :=
  match op.role with
  | .marker kind => some kind
  | _ => none

/-- The kind of jump the opcode is, if it is one. -/
def branch? (op : Opcode) : Option Branch :=
  match op.role with
  | .branch kind => some kind
  | _ => none

/-- The slot that holds the target of a jump. -/
def branchSlot? (op : Opcode) : Option Nat :=
  op.branch?.bind fun _ => op.operandKinds.findIdx? (· == .target)

/-- Whether the opcode leaves the function. -/
def isTerminal (op : Opcode) : Bool := op.role == .terminal

/-- Whether control cannot go on to the instruction after the opcode. -/
def endsBlock (op : Opcode) : Bool := op.isTerminal || op.role == .branch .unconditional

end Opcode

/-- The opcode of a marker of the given kind. -/
def Marker.opcode : Marker → Opcode
  | .forward => .jtarg
  | .loop => .jloop
  | .forLoop => .jfor

namespace Opcode

/-! ## Codes -/

/-- Every opcode, in the order of the codes. -/
def all : List Opcode :=
  [.nop, .phi, .mov, .cmov,
    .jtarg, .jloop, .jfor,
    .jump, .jt, .jf,
    .assert, .atype,
    .eq, .neq, .isIn, .nin, .lt, .geq, .gt, .leq,
    .and, .not2, .or, .xor, .not, .bool,
    .sarg, .call, .ret, .retv, .tcall,
    .intk, .strk, .boolk, .typek,
    .add, .sub, .mul, .fdiv, .mod, .pow, .div, .min, .max, .neg, .abs, .floor, .ceil,
    .bitand, .bitor, .bitxor, .bitanot, .bitshr, .bitshl, .bitnot,
    .cat, .fmt,
    .geti, .seti, .deli,
    .len]

/-- The code of an opcode: its place in the declaration. -/
def code (op : Opcode) : UInt8 := UInt8.ofNat op.ctorIdx

/-- The opcode with the given code. -/
def ofCode? (b : UInt8) : Option Opcode := all[b.toNat]?

theorem ofCode?_code (op : Opcode) : ofCode? op.code = some op := by
  cases op <;> rfl

theorem mem_all (op : Opcode) : op ∈ all := by
  cases op <;> decide

/-- A code that names an opcode is the code of that opcode. -/
theorem code_ofCode? {b : UInt8} {op : Opcode} (h : ofCode? b = some op) : op.code = b := by
  have hall : ∀ i : Fin all.length, (all[i]).code.toNat = i.val := by decide
  obtain ⟨hlt, hget⟩ := List.getElem?_eq_some_iff.mp h
  have hcode : (all[b.toNat]).code.toNat = b.toNat := hall ⟨b.toNat, hlt⟩
  rw [hget] at hcode
  exact UInt8.toNat_inj.mp hcode

/-! ## Mnemonics -/

/-- The opcode with the given mnemonic, whose letters may be of either case. -/
def ofMnemonic? (name : String) : Option Opcode :=
  let lower := name.map Char.toLower
  all.find? fun op => op.mnemonic == lower

/-- The catalog is searched for a mnemonic in vain only if no row has it, and
the row found is the one meant. -/
theorem find?_mnemonic (op : Opcode) : all.find? (·.mnemonic == op.mnemonic) = some op := by
  have hall : ∀ a ∈ all, all.find? (·.mnemonic == a.mnemonic) = some a := by decide +kernel
  exact hall op op.mem_all

/-- Two opcodes are never spelled alike. -/
theorem mnemonic_injective {op op' : Opcode} (h : op.mnemonic = op'.mnemonic) : op = op' := by
  have hop := op.find?_mnemonic
  rw [h, op'.find?_mnemonic] at hop
  exact (Option.some.inj hop).symm

/-- A name stands for an opcode exactly when it is the mnemonic up to the case
of ASCII letters. -/
theorem ofMnemonic?_eq_some_iff {name : String} {op : Opcode} :
    ofMnemonic? name = some op ↔ name.map Char.toLower = op.mnemonic := by
  constructor
  · intro h
    have hop := List.find?_some h
    exact (beq_iff_eq.mp hop).symm
  · intro h
    have hop := op.find?_mnemonic
    rw [← h] at hop
    exact hop

end Opcode

end Wordcode
