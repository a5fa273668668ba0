import Typestate.FiniteMap
import Typestate.Identifier
import Typestate.Token

/-!
# The table of known functions

Known functions are looked up by normalised identifier. An entry gives the role of the call, the
argument positions whose values move, and the positions that receive a freshly produced value.

## Contents

- §1 Positions
- §2 Entries and their check
- §3 The table and the built-in entries
-/

namespace Typestate

/-! ## §1 Positions -/

/-- A place at a call: an argument index, or `Position.result`. -/
abbrev Position := Int

namespace Position

/-- The place of the returned value. -/
def result : Position := -1

/-- The largest argument index an entry may name. -/
def maxArgument : Position := 255

/-- The largest position there is. -/
def largest : Position := 2147483647

/-- The next position; the largest one is its own successor. -/
def next (p : Position) : Position := min (p + 1) largest

/-- The position that a number stands for: the number in 32-bit two's complement. -/
def ofIndex (n : Nat) : Position := Int.bmod n UInt32.size

/-- The position that a declared output slot stands for. -/
def ofSlot (slot : UInt64) : Position := ofIndex slot.toNat

/-- The argument at a position; the returned value and positions out of range have none. -/
def argument? {α : Type} (args : List α) (p : Position) : Option α :=
  if p < 0 then none else args[p.toNat]?

end Position

/-! ## §2 Entries -/

/-- One entry of the table. -/
structure KnownFunction where
  /-- The identifier that the entry is about. -/
  name : String
  token : Token
  /-- Argument positions whose values move. -/
  consumers : List Position
  /-- Positions that receive the produced value; for a rebuild, only where the mode tracks owners. -/
  outputs : List Position
  deriving DecidableEq, Inhabited

/-- Why an entry is refused. -/
inductive PositionFault where
  /-- A consumer that is no argument position. -/
  | consumer (name : String) (position : Position)
  /-- An output that is neither an argument position nor the result. -/
  | output (name : String) (position : Position)
  deriving DecidableEq

/-- The text of the refusal. -/
def PositionFault.message : PositionFault → String
  | consumer name p =>
    "`" ++ name ++ "`: consumer position " ++ toString p ++ " is outside 0..=255"
  | output name p =>
    "`" ++ name ++ "`: factory output position " ++ toString p ++ " is outside -1..=255"

namespace KnownFunction

/-- Whether a position lies between `least` and the largest argument index. -/
def inRange (least p : Position) : Bool := least ≤ p && p ≤ Position.maxArgument

/-- The first position out of range, consumers before outputs. -/
def fault? (f : KnownFunction) : Option PositionFault :=
  match f.consumers.find? (fun p => !inRange 0 p) with
  | some p => some (.consumer f.name p)
  | none =>
    match f.outputs.find? (fun p => !inRange Position.result p) with
    | some p => some (.output f.name p)
    | none => none

end KnownFunction

/-! ## §3 The table -/

/-- Known functions by normalised identifier. -/
structure KnownTable where
  entries : FiniteMap String KnownFunction
  deriving DecidableEq, Inhabited

namespace KnownTable

/-- The table without entries. -/
def empty : KnownTable := ⟨.empty⟩

/-- The entry under exactly this identifier. -/
def get? (t : KnownTable) (identifier : String) : Option KnownFunction := t.entries.get? identifier

/-- The number of entries. -/
def size (t : KnownTable) : Nat := t.entries.size

/-- Whether there is no entry. -/
def isEmpty (t : KnownTable) : Bool := t.entries.isEmpty

/-- Adds an entry under its normalised name, in place of the one that was there. -/
def add (t : KnownTable) (f : KnownFunction) : KnownTable :=
  let name := Identifier.normalize f.name
  ⟨t.entries.insert name { f with name := name }⟩

/-- Adds entries one after the other. -/
def addAll (t : KnownTable) (fs : List KnownFunction) : KnownTable := fs.foldl add t

/-- The entries every analysis starts from. -/
def builtinEntries : List KnownFunction :=
  [ ⟨"alloc::vec::Vec::as_ptr", .extract, [0], [-1]⟩,
    ⟨"alloc::vec::Vec::as_mut_ptr", .extract, [0], [-1]⟩,
    ⟨"alloc::vec::Vec::into_raw_parts", .extract, [0], [-1]⟩,
    ⟨"alloc::vec::Vec::from_raw_parts", .rebuild, [0], [-1]⟩,
    ⟨"alloc::string::String::as_ptr", .extract, [0], [-1]⟩,
    ⟨"alloc::string::String::as_mut_ptr", .extract, [0], [-1]⟩,
    ⟨"alloc::string::String::into_raw_parts", .extract, [0], [-1]⟩,
    ⟨"alloc::string::String::from_raw_parts", .rebuild, [0], [-1]⟩,
    ⟨"alloc::boxed::Box::into_raw", .extract, [0], [-1]⟩,
    ⟨"alloc::boxed::Box::from_raw", .rebuild, [0], [-1]⟩,
    ⟨"alloc::rc::Rc::into_raw", .extract, [0], [-1]⟩,
    ⟨"alloc::rc::Rc::from_raw", .rebuild, [0], [-1]⟩,
    ⟨"alloc::sync::Arc::into_raw", .extract, [0], [-1]⟩,
    ⟨"alloc::sync::Arc::from_raw", .rebuild, [0], [-1]⟩,
    ⟨"alloc::ffi::c_str::CString::into_raw", .extract, [0], [-1]⟩,
    ⟨"alloc::ffi::c_str::CString::from_raw", .rebuild, [0], [-1]⟩,
    ⟨"core::slice::raw::from_raw_parts", .rebuild, [0], [-1]⟩,
    ⟨"core::slice::raw::from_raw_parts_mut", .rebuild, [0], [-1]⟩,
    ⟨"core::ptr::drop_in_place", .release, [0], []⟩,
    ⟨"core::mem::drop", .release, [0], []⟩,
    ⟨"__rust_dealloc", .release, [0], []⟩,
    ⟨"alloc::alloc::dealloc", .release, [0], []⟩,
    ⟨"core::ptr::read", .access, [0], []⟩,
    ⟨"core::ptr::write", .access, [0], []⟩,
    ⟨"core::ptr::copy", .access, [0, 1], []⟩,
    ⟨"core::ptr::copy_nonoverlapping", .access, [0, 1], []⟩,
    ⟨"core::mem::forget", .neutral, [], []⟩,
    ⟨"core::mem::manually_drop::ManuallyDrop::new", .neutral, [], []⟩ ]

/-- The table of the built-in entries. -/
def builtin : KnownTable := ⟨FiniteMap.ofList (builtinEntries.map (fun f => (f.name, f)))⟩

end KnownTable

end Typestate
