/-
# Parse — three sorts of lines

Three sorts of lines are parsed here: those without a token, those of one
directive, and those of an instruction whose operands are all numbers.  The
grammar derives each of them.
-/
import Wordcode.Proofs.Listing.Grammar

namespace Wordcode

open Lexeme

variable {text : List Char}

/-! ## Mnemonics -/

theorem Opcode.map_toLower_mnemonic (op : Opcode) : op.mnemonic.map Char.toLower = op.mnemonic := by
  rw [← String.toList_inj, String.toList_map]
  cases op <;> decide

theorem Opcode.isName_mnemonic (op : Opcode) : isName op.mnemonic.toList := by
  cases op <;> decide

/-! ## Operands -/

/-- Operands that are numbers, with a comma between each two. -/
def OperandExpr.numberTokens (values : List Int) : List Token :=
  (values.map Token.number).intersperse .comma

theorem OperandExpr.listSpelled_numberTokens (values : List Int) :
    ListSpelled (numberTokens values) (values.map .number) := by
  refine ⟨values.map .number, rfl, ?_⟩
  rw [List.forall₂_map_left_iff, List.forall₂_map_right_iff, List.forall₂_same]
  exact fun value _ => .number (.number value)

/-! ## Lines -/

namespace Line

theorem parse_blank (h : Yields text []) : parse text = .ok ⟨none, none⟩ :=
  (parse_eq_ok_iff h).mpr (.unlabelled .nothing)

theorem parse_directive {name : String} {token : Token} {d : Directive}
    (hd : d.Spelled name [token]) (h : Yields text [.directive name, token]) :
    parse text = .ok ⟨none, some (.directive d)⟩ :=
  (parse_eq_ok_iff h).mpr (.unlabelled (.directive hd))

theorem parse_instruction {op : Opcode} {values : List Int}
    (h : Yields text (.identifier op.mnemonic :: OperandExpr.numberTokens values)) :
    parse text = .ok ⟨none, some (.instruction ⟨op, values.map .number⟩)⟩ :=
  (parse_eq_ok_iff h).mpr (.unlabelled (.instruction op.map_toLower_mnemonic
    (OperandExpr.listSpelled_numberTokens values)))

end Line

end Wordcode
