/-
# Builders — functions under construction

A builder holds a function that only grows: the declared counts can be
overwritten, constants and instructions are appended, and a single operand of
an instruction that is already there can be patched, which is how a forward
jump gets its target once the marker's index is known.

An append asks for a proof that its table has room, so the 16-bit index it
returns is the number of entries before it and nothing is ever lost.  `apply`
takes an edit as data, decides whether there is room, and answers; an edit
that is refused leaves the builder as it was.
-/
import Wordcode.Function

namespace Wordcode

/-! ## Tables -/

/-- The three tables of a function that grow while it is built. -/
inductive Table where
  | ints
  | strs
  | code
deriving DecidableEq

/-- The table as messages name it. -/
def Table.text : Table → String
  | .ints => "integer pool"
  | .strs => "string pool"
  | .code => "instruction stream"

/-- The number of entries in a table. -/
def Function.tableSize (f : Function) : Table → Nat
  | .ints => f.ints.size
  | .strs => f.strs.size
  | .code => f.code.size

/-! ## Builders -/

/-- Whether a builder has been given anything yet. -/
inductive Phase where
  /-- Nothing was declared or appended. -/
  | empty
  /-- Something was. -/
  | building
deriving DecidableEq

/-- A function under construction. -/
structure Builder where
  /-- What has been built so far. -/
  function : Function := .empty
  /-- Whether anything has been built so far. -/
  phase : Phase := .empty
deriving DecidableEq

namespace Builder

/-- A builder that starts from nothing. -/
def new : Builder := {}

/-- A builder that starts from a finished function. -/
def ofFunction (f : Function) : Builder :=
  ⟨f, if f = .empty then .empty else .building⟩

/-- Whether a table has room for one more entry. -/
def HasRoom (b : Builder) (t : Table) : Prop := b.function.tableSize t < capacity

instance (b : Builder) (t : Table) : Decidable (b.HasRoom t) :=
  inferInstanceAs (Decidable (_ < _))

/-- The index that the next entry of a table gets. -/
def nextIndex (b : Builder) (t : Table) : Operand := UInt16.ofNat (b.function.tableSize t)

/-- While there is room, the next index is the number of entries, unwrapped. -/
theorem toNat_nextIndex {b : Builder} {t : Table} (room : b.HasRoom t) :
    (b.nextIndex t).toNat = b.function.tableSize t :=
  UInt16.toNat_ofNat_of_lt' room

/-! ## Declarations and appends -/

/-- Declares the number of positional arguments. -/
def setArgs (b : Builder) (count : UInt16) : Builder :=
  { b with function.args := count, phase := .building }

/-- Declares the number of captured values. -/
def setUpvalues (b : Builder) (count : UInt16) : Builder :=
  { b with function.upvalues := count, phase := .building }

/-- Appends an integer constant. -/
def pushInt (b : Builder) (value : Int32) (_room : b.HasRoom .ints) : Builder :=
  { b with function.ints := b.function.ints.push value, phase := .building }

/-- Appends a string constant. -/
def pushStr (b : Builder) (value : String) (_room : b.HasRoom .strs) : Builder :=
  { b with function.strs := b.function.strs.push value, phase := .building }

/-- Appends an instruction. -/
def push (b : Builder) (i : Instruction) (_room : b.HasRoom .code) : Builder :=
  { b with function.code := b.function.code.push i, phase := .building }

/-! ## Patches -/

/-- The instruction at an index, with another operand in one of its slots. -/
def patched (b : Builder) (index : Operand) (slot : Nat) (value : Operand) :
    Except CodeError Instruction :=
  match b.function.code[index.toNat]? with
  | none => .error (.instructionOutOfRange index.toNat b.function.length)
  | some i => i.set slot value

/-- Puts an instruction in the place of one that is already there. -/
def replace (b : Builder) (index : Operand) (i : Instruction) : Builder :=
  { b with function.code := b.function.code.setIfInBounds index.toNat i }

/-- Overwrites one operand of an instruction that is already there. -/
@[inline] def patch (b : Builder) (index : Operand) (slot : Nat) (value : Operand) :
    Except CodeError Builder :=
  match b.patched index slot value with
  | .error e => .error e
  | .ok i => .ok (b.replace index i)

end Builder

/-! ## Edits as data -/

/-- What a front end may ask of a builder. -/
inductive Edit where
  | setArgs (count : UInt16)
  | setUpvalues (count : UInt16)
  | pushInt (value : Int32)
  | pushStr (value : String)
  | push (i : Instruction)
  | patch (index : Operand) (slot : Nat) (value : Operand)
deriving DecidableEq

/-- The answer of a builder to an edit. -/
inductive Reply where
  /-- The edit is done, and there is nothing to tell. -/
  | done
  /-- The entry was appended and got this index. -/
  | appended (index : Operand)
  /-- The entry was refused because its table is full. -/
  | full (t : Table)
  /-- The patch was refused. -/
  | refused (e : CodeError)
deriving DecidableEq

/-- The refusal of an append as it is reported. -/
def Table.fullMessage (t : Table) : String := s!"{t.text} is full ({capacity} entries)"

namespace Builder

/-- Carries out an edit, if it can be. -/
def apply (b : Builder) : Edit → Builder × Reply
  | .setArgs count => (b.setArgs count, .done)
  | .setUpvalues count => (b.setUpvalues count, .done)
  | .pushInt value =>
    if room : b.HasRoom .ints then
      let index := b.nextIndex .ints
      (b.pushInt value room, .appended index)
    else (b, .full .ints)
  | .pushStr value =>
    if room : b.HasRoom .strs then
      let index := b.nextIndex .strs
      (b.pushStr value room, .appended index)
    else (b, .full .strs)
  | .push i =>
    if room : b.HasRoom .code then
      let index := b.nextIndex .code
      (b.push i room, .appended index)
    else (b, .full .code)
  | .patch index slot value =>
    match b.patch index slot value with
    | .error e => (b, .refused e)
    | .ok b' => (b', .done)

/-- The builder after a sequence of edits. -/
def run (b : Builder) (edits : List Edit) : Builder := edits.foldl (fun b e => (b.apply e).1) b

end Builder

end Wordcode
