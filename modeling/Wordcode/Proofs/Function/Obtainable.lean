/-
# Obtainable functions — where the sizes of tables are bounded

A function comes from nothing, from a builder, from a text or from bytes.  Edits
and texts keep every table within what operands can address; bytes are only
asked whether each entry can be read.  So a table that is too large has the size
that it had when a function was read (`Obtainable.tableSize_le_or_read`), and
the bound holds of every function exactly if it holds of those that are read.
There it fails: a function with one constant too many is written and read like
any other.
-/
import Wordcode.Proofs.Assembly.TwoPass
import Wordcode.Proofs.Builder.Session
import Wordcode.Proofs.Bytes.Exact

namespace Wordcode.Function

open Bytes

/-- A function fits exactly if operands can name every entry of its tables. -/
theorem fits_iff_addressable {f : Function} : f.Fits ↔
    ∀ (t : Table) (k : Nat), k < f.tableSize t → ∃ index : Operand, index.toNat = k := by
  constructor
  · intro hfits t k hk
    exact ⟨UInt16.ofNat k, UInt16.toNat_ofNat_of_lt' (Nat.lt_of_lt_of_le hk (hfits t))⟩
  · intro h t
    by_contra hlarge
    obtain ⟨index, hindex⟩ := h t capacity (Nat.lt_of_not_le hlarge)
    exact absurd hindex (Nat.ne_of_lt index.toNat_lt)

/-- A function that a front end can get hold of when only `readable` bytes are
given to the reader. -/
inductive Obtainable (readable : List UInt8 → Prop) : Function → Prop where
  | empty : Obtainable readable .empty
  | built (edits : List Edit) : Obtainable readable (Builder.new.run edits).function
  | rebuilt {f : Function} (h : Obtainable readable f) (edits : List Edit) :
      Obtainable readable ((Builder.ofFunction f).run edits).function
  | assembled {source : String} {f : Function} (h : assemble source = .ok f) :
      Obtainable readable f
  | read {bytes rest : List UInt8} {f : Function} (h : readable bytes)
      (hread : reader bytes = .ok (f, rest)) : Obtainable readable f

variable {readable : List UInt8 → Prop} {f : Function}

theorem fits_of_assemble {source : String} (h : assemble source = .ok f) : f.Fits := by
  obtain ⟨ls, hls, _⟩ := Assembly.exists_assemble_iff.mp ⟨f, h⟩
  obtain ⟨hwellFormed, hdenotes⟩ := Assembly.denotes_of_assemble hls h
  intro t
  rw [hdenotes.tableSize_eq]
  exact hwellFormed.tableSize_le t

/-- A table that operands cannot address was that large when it was read. -/
theorem Obtainable.tableSize_le_or_read (h : Obtainable readable f) (t : Table) :
    f.tableSize t ≤ capacity ∨ ∃ bytes g rest, readable bytes ∧ reader bytes = .ok (g, rest)
      ∧ f.tableSize t = g.tableSize t := by
  induction h with
  | empty => exact .inl (fits_empty t)
  | built edits => exact .inl (Builder.fits_run fits_empty edits t)
  | @rebuilt f _ edits ih =>
      rcases Builder.tableSize_run (Builder.ofFunction f) edits t with hle | heq
      · exact .inl hle
      · -- a table that was too large before the session is as large after it
        rw [heq]
        exact ih
  | assembled h => exact .inl (fits_of_assemble h t)
  | read h hread => exact .inr ⟨_, _, _, h, hread, rfl⟩

/-- Of the functions that can be obtained, the bound holds as far as it holds of
those that are read: only they can have too large a table, and if none has, then
operands can name every entry of every function. -/
theorem sizes_of_obtainable (readable : List UInt8 → Prop) :
    (∀ f, Obtainable readable f → ∀ t, f.tableSize t ≤ capacity
        ∨ ∃ bytes g rest, readable bytes ∧ reader bytes = .ok (g, rest)
          ∧ f.tableSize t = g.tableSize t)
      ∧ ((∀ f, Obtainable readable f → f.Fits) ↔
        ∀ bytes f rest, readable bytes → reader bytes = .ok (f, rest) → f.Fits)
      ∧ ∀ f : Function, f.Fits ↔
        ∀ (t : Table) (k : Nat), k < f.tableSize t → ∃ index : Operand, index.toNat = k := by
  refine ⟨fun f h t => h.tableSize_le_or_read t, ?_, fun f => fits_iff_addressable⟩
  constructor
  · intro hfits bytes f rest h hread
    exact hfits f (.read h hread)
  · intro hread f h t
    rcases h.tableSize_le_or_read t with hle | ⟨bytes, g, rest, hbytes, hg, heq⟩
    · exact hle
    · rw [heq]
      exact hread bytes g rest hbytes hg t

/-- The bytes of a function with nothing but zeros among its constants. -/
theorem toBytes_zeros (n : Nat) :
    (⟨0, 0, Array.replicate n 0, #[], #[]⟩ : Function).toBytes
      = List.replicate 4 0 ++ littleEndian 8 n ++ List.replicate (n * 4) 0
        ++ List.replicate 16 0 := by
  have hcounts : writeUInt16 0 ++ writeUInt16 0 = List.replicate 4 0 := by decide
  have hint : writeInt32 0 = List.replicate 4 0 := by decide
  have hints : writeSequence writeInt32 (Array.replicate n 0)
      = littleEndian 8 n ++ List.replicate (n * 4) 0 := by
    rw [writeSequence, Array.size_replicate, Array.toList_replicate, List.flatMap_replicate, hint,
      List.flatten_replicate_replicate]
  have hrest : writeSequence writeString #[] ++ writeSequence Instruction.toBytes #[]
      = List.replicate 16 0 := by decide
  rw [toBytes, hcounts, hints, ← hrest]
  simp only [List.append_assoc]

/-- A function with one integer constant more than operands can name. -/
theorem exists_obtainable_not_fits :
    let bytes : List UInt8 := List.replicate 4 0 ++ [1, 0, 1, 0, 0, 0, 0, 0]
      ++ List.replicate (65537 * 4) 0 ++ List.replicate 16 0
    let f : Function := ⟨0, 0, Array.replicate 65537 0, #[], #[]⟩
    reader bytes = .ok (f, []) ∧ Obtainable (· = bytes) f
      ∧ f.tableSize .ints = 65537 ∧ ¬ f.Fits := by
  intro bytes f
  have hsize : f.tableSize .ints = 65537 := Array.size_replicate
  have hstorable : f.Storable := by
    refine ⟨fun t => ?_, fun s hs => absurd hs (Array.not_mem_empty s)⟩
    cases t with
    | ints => rw [hsize]; decide
    | strs | code => decide
  have hbytes : f.toBytes = bytes := toBytes_zeros 65537
  have hread : reader (f.toBytes ++ []) = .ok (f, []) := takes_reader hstorable []
  rw [List.append_nil, hbytes] at hread
  refine ⟨hread, .read rfl hread, hsize, fun hfits => ?_⟩
  have hle := hfits .ints
  rw [hsize] at hle
  exact absurd hle (by decide)

end Wordcode.Function
