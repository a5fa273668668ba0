import Typestate.Json.Decode
import Typestate.Json.Printer
import Typestate.Program.Basic

/-!
# Programs as JSON

The written form of a program and the reading of it. Writing gives every list and text and leaves
out what is absent; reading accepts either form of a record, fields in any order, defaults left out
and unknown fields.

## Contents

- §1 Writing
- §2 Reading
-/

namespace Typestate

/-! ## §1 Writing -/

/-- A value identity as its number. -/
def ValueId.toJson (v : ValueId) : Json := .ofNat v.index.toNat

/-- The member of a field that may be absent. -/
def optionalMember {α : Type} (name : String) (toJson : α → Json) : Option α → List (String × Json)
  | none => []
  | some a => [(name, toJson a)]

/-- An operation, under the name of its kind. -/
def Op.toJson : Op → Json
  | .call callee args result =>
    .ofMembers [("call", .ofMembers (
      [("callee", .ofString callee), ("args", .array (args.map ValueId.toJson))] ++
        optionalMember "result" ValueId.toJson result))]
  | .ret value => .ofMembers [("return", .ofMembers (optionalMember "value" ValueId.toJson value))]
  | .other text => .ofMembers [("other", .ofMembers [("text", .ofString text)])]

/-- An instruction. -/
def Instruction.toJson (i : Instruction) : Json :=
  .ofMembers [("id", .ofNat i.id.index.toNat), ("op", i.op.toJson)]

/-- A block. -/
def Block.toJson (b : Block) : Json :=
  .ofMembers [("instructions", .array (b.instructions.map Instruction.toJson)),
    ("successors", .array (b.successors.map (fun s => .ofNat s.toNat)))]

/-- A function. -/
def Function.toJson (f : Function) : Json :=
  .ofMembers ([("name", .ofString f.name), ("params", .array (f.params.map ValueId.toJson))] ++
    optionalMember "output_arg" (fun k => .ofNat k.toNat) f.outputArg ++
    [("blocks", .array (f.blocks.map Block.toJson))])

/-- The names of values, in ascending order of the values. -/
def valueNamesToJson (names : FiniteMap ValueId String) : Json :=
  .object (names.toList.map (fun e =>
    ((Text.decimal e.1.index.toNat).map Json.Piece.char, Json.ofString e.2)))

/-- A program. -/
def Program.toJson (p : Program) : Json :=
  .ofMembers ([("functions", .array (p.functions.map Function.toJson))] ++
    if p.valueNames.isEmpty then [] else [("value_names", valueNamesToJson p.valueNames)])

/-- The document of a program. -/
def Program.pretty (p : Program) : String := p.toJson.pretty

/-! ## §2 Reading -/

open Json (Fault Fields)

/-- A value identity. -/
def ValueId.ofJson (v : Json) : Except Fault ValueId := (Json.readWord32 v).map ValueId.mk

/-- The body of a call. -/
def Op.callOfJson (v : Json) : Except Fault Op := do
  let fields ← Fields.ofJson ["callee", "args", "result"] v
  let callee ← fields.required "callee" Json.readString
  let args ← fields.withDefault "args" [] (Json.readList ValueId.ofJson)
  let result ← fields.withDefault "result" none (Json.readOption ValueId.ofJson)
  pure (.call callee args result)

/-- The body of a return. -/
def Op.retOfJson (v : Json) : Except Fault Op := do
  let fields ← Fields.ofJson ["value"] v
  let value ← fields.withDefault "value" none (Json.readOption ValueId.ofJson)
  pure (.ret value)

/-- The body of any other operation. -/
def Op.otherOfJson (v : Json) : Except Fault Op := do
  let fields ← Fields.ofJson ["text"] v
  let text ← fields.withDefault "text" "" Json.readString
  pure (.other text)

/-- An operation: an object whose only key names the kind. -/
def Op.ofJson : Json → Except Fault Op
  | .object [(key, body)] =>
    match key.decode? with
    | some "call" => Op.callOfJson body
    | some "return" => Op.retOfJson body
    | some "other" => Op.otherOfJson body
    | _ => .error (.shape "one of `call`, `return`, `other`")
  | _ => .error (.shape "an object with one key")

/-- An instruction. -/
def Instruction.ofJson (v : Json) : Except Fault Instruction := do
  let fields ← Fields.ofJson ["id", "op"] v
  let id ← fields.required "id" Json.readWord32
  let op ← fields.required "op" Op.ofJson
  pure ⟨⟨id⟩, op⟩

/-- A block. -/
def Block.ofJson (v : Json) : Except Fault Block := do
  let fields ← Fields.ofJson ["instructions", "successors"] v
  let instructions ← fields.required "instructions" (Json.readList Instruction.ofJson)
  let successors ← fields.withDefault "successors" [] (Json.readList Json.readWord64)
  pure ⟨instructions, successors⟩

/-- A function. -/
def Function.ofJson (v : Json) : Except Fault Function := do
  let fields ← Fields.ofJson ["name", "params", "output_arg", "blocks"] v
  let name ← fields.required "name" Json.readString
  let params ← fields.withDefault "params" [] (Json.readList ValueId.ofJson)
  let outputArg ← fields.withDefault "output_arg" none (Json.readOption Json.readWord64)
  let blocks ← fields.withDefault "blocks" [] (Json.readList Block.ofJson)
  pure ⟨name, params, outputArg, blocks⟩

/-- The characters of a text written without code units. -/
def plainCharacters? (q : Json.Quoted) : Option (List Char) :=
  q.mapM fun
    | .char c => some c
    | .unit _ => none

/-- A key of the value names: the numeral of a value, without leading zeros. -/
def ValueId.ofKey (key : Json.Quoted) : Except Fault ValueId :=
  match plainCharacters? key with
  | some cs =>
    if Json.isWhole cs && Text.numeralValue cs < UInt32.size then
      .ok ⟨UInt32.ofNat (Text.numeralValue cs)⟩
    else
      .error (.shape "the number of a value")
  | none => .error (.shape "the number of a value")

/-- The names of values; of several names for one value the last counts. -/
def valueNamesOfJson : Json → Except Fault (FiniteMap ValueId String)
  | .object members => do
    let bindings ← members.mapM (fun m => do
      let key ← ValueId.ofKey m.1
      let name ← Json.readString m.2
      pure (key, name))
    pure (FiniteMap.ofList bindings)
  | _ => .error (.shape "an object")

/-- A program. -/
def Program.ofJson (v : Json) : Except Fault Program := do
  let fields ← Fields.ofJson ["functions", "value_names"] v
  let functions ← fields.required "functions" (Json.readList Function.ofJson)
  let valueNames ← fields.withDefault "value_names" .empty valueNamesOfJson
  pure ⟨functions, valueNames⟩

/-- The program of a document. -/
def Program.parse (text : String) : Except Fault Program := (Json.parse text).bind Program.ofJson

end Typestate
