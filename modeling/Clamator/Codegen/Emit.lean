import Clamator.Base.Assoc
import Clamator.Codegen.Case
import Clamator.Codegen.Ir

/-!
# The emitted files (`codegen/src/emit-ts.ts`, `emit-py.ts`)

The text of a TypeScript file, the schema document for `datamodel-codegen`, and
header and tail of a Python file. The names that stand in them are definitions of
their own.
-/

namespace Clamator.Codegen
open Clamator.Base Clamator.Protocol

/-! ### Names -/

/- `upperFirst(m.name)` -/
def typeName (name : String) : String := String.ofList (upperFirst name.toList)

/- `Pascal` -/
def pascalName (service : String) : String := String.ofList (kebabAndCamelToPascal service.toList)

/- `snake` -/
def snakeName (name : String) : String := String.ofList (camelToSnake name.toList)

/- A hyphen before a lower-case letter goes, and the letter becomes a capital. -/
def camelHyphen : List Char → List Char
  | a::b::s => if a = '-' ∧ lower b then b.toUpper::camelHyphen s else a::camelHyphen (b::s)
  | s => s

def exportName (service : String) : String := String.ofList (camelHyphen service.toList)++"Contract"

def underscores (s : List Char) : List Char := s.map fun c => if c = '-' then '_' else c

def serviceVar (service : String) : String :=
  String.ofList (camelToSnake (underscores service.toList))++"_contract"

/- `path.basename` of the path of a file -/
def basename (path : String) : String :=
  String.ofList (path.toList.reverse.takeWhile (· != '/')).reverse

def joined (sep : String) (xs : List String) : String := sep.intercalate xs

def banner (comment version sourceFile : String) : String :=
  comment++" AUTO-GENERATED by @clamator/codegen v"++version++" from "++basename sourceFile++".\n"++
  comment++" DO NOT EDIT. Re-run codegen to update.\n"

/-! ### TypeScript -/

/-- The exported type aliases of a method and the schema each is inferred from. -/
def aliases (m : IrMethod) : List (String × String) :=
  (typeName m.name++"Params","params")::
    if m.isNotification then [] else [(typeName m.name++"Result","result")]

def typeAlias (exported : String) (m : IrMethod) (a : String × String) : String :=
  "export type "++a.1++" = z.infer<typeof "++exported++".methods."++m.name++"."++a.2++">;"

def signature (m : IrMethod) : String :=
  if m.isNotification then "  "++m.name++"(params: "++typeName m.name++"Params): Promise<void>"
  else "  "++m.name++"(params: "++typeName m.name++"Params, opts?: \x7b timeoutMs?: number \x7d): Promise<"++
    typeName m.name++"Result>"

def clientMethod (service : String) (m : IrMethod) : String :=
  signature m++" \x7b\n    return this.client."++
  (if m.isNotification then "notify('"++service++"', '"++m.name++"', params);\n  \x7d"
   else "call('"++service++"', '"++m.name++"', params, opts);\n  \x7d")

/-- `importPath` is the option `contractImportPath`, in which the service takes the place of
`\x7bservice\x7d`. -/
def renderTsFile (version importPath : String) (c : IrContract) : String :=
  let exported := exportName c.service
  banner "//" version c.sourceFile++
  "import \x7b "++exported++" \x7d from '"++importPath.replace "\x7bservice\x7d" c.service++"';\n"++
  "import type \x7b ClamatorClient \x7d from '@clamator/protocol';\n"++
  "import type \x7b z \x7d from 'zod';\n\n"++
  joined "\n" (c.methods.flatMap fun m => (aliases m).map (typeAlias exported m))++"\n\n"++
  "export class "++pascalName c.service++"Client \x7b\n"++
  "  constructor(private client: ClamatorClient) \x7b\x7d\n"++
  joined "\n" (c.methods.map (clientMethod c.service))++"\n\x7d\n\n"++
  "export interface "++pascalName c.service++"Service \x7b\n"++
  joined "\n" (c.methods.map fun m => signature m++";")++"\n\x7d\n"

/- The files that `emitTs` writes, by name. -/
def emitTs (version importPath : String) (contracts : List IrContract) : List (String × String) :=
  contracts.map fun c => (c.service++".ts",renderTsFile version importPath c)

/-! ### Python -/

/-- A method of a generated class: the name that `def` binds, the wire method it stands for, its
text. -/
structure PyDef where
  name : String
  wire : String
  text : String

def clientDef (service : String) (m : IrMethod) : PyDef where
  name := snakeName m.name
  wire := m.name
  text := if m.isNotification then
      "    async def "++snakeName m.name++"(self, params: "++typeName m.name++"Params) -> None:\n"++
      "        await self._client.notify(\""++service++"\", \""++m.name++
      "\", params.model_dump(mode='json', by_alias=True))"
    else
      "    async def "++snakeName m.name++"(self, params: "++typeName m.name++
      "Params, *, timeout_ms: int | None = None) -> "++typeName m.name++"Result:\n"++
      "        raw = await self._client.call(\""++service++"\", \""++m.name++
      "\", params.model_dump(mode='json', by_alias=True), timeout_ms=timeout_ms)\n"++
      "        return "++typeName m.name++"Result.model_validate(raw)"

def abcDef (m : IrMethod) : PyDef where
  name := snakeName m.name
  wire := m.name
  text := "    @abstractmethod\n    async def "++snakeName m.name++"(self, params: "++typeName m.name++
    "Params) -> "++(if m.isNotification then "None" else typeName m.name++"Result")++": ..."

/-- The entry of METHODS: the wire method and its `handler_attr`. -/
def handlerAttr (m : IrMethod) : String × String := (m.name,snakeName m.name)

def methodsEntry (m : IrMethod) : String :=
  "    \""++(handlerAttr m).1++"\": MethodEntry(params_model="++typeName m.name++"Params, result_model="++
  (if m.isNotification then "None" else typeName m.name++"Result")++
  ", handler_attr=\""++(handlerAttr m).2++"\"),"

def renderPyTail (c : IrContract) : String :=
  "class "++pascalName c.service++"Client:\n"++
  "    def __init__(self, client: ClamatorClient) -> None:\n"++
  "        self._client = client\n\n"++
  joined "\n\n" (c.methods.map fun m => (clientDef c.service m).text)++"\n\n\n"++
  "class "++pascalName c.service++"Service(ABC):\n"++
  joined "\n\n" (c.methods.map fun m => (abcDef m).text)++"\n\n\n"++
  "METHODS = \x7b\n"++joined "\n" (c.methods.map methodsEntry)++"\n\x7d\n\n"++
  serviceVar c.service++" = Contract(\n"++
  "    service=\""++c.service++"\",\n    methods=METHODS,\n)\n"

def pyHeader (version : String) (c : IrContract) : String :=
  banner "#" version c.sourceFile++
  "from __future__ import annotations\n"++
  "from abc import ABC, abstractmethod\n"++
  "from clamator_protocol import ClamatorClient, Contract, MethodEntry\n\n"

/- The members of `$defs`, assigned one after the other. -/
def schemaDefs (c : IrContract) : List (String × JsVal) :=
  Assoc.assignAll [] (c.methods.flatMap fun m =>
    (typeName m.name++"Params",m.params.jsonSchema)::match m.result with
      | some r => [(typeName m.name++"Result",r.jsonSchema)]
      | none => [])

/- What `datamodel-codegen` reads. -/
def schemaWrapper (c : IrContract) : JsVal :=
  .obj [("$schema",Js.str "http://json-schema.org/draft-07/schema#"),("type",Js.str "object"),
    ("$defs",.obj (schemaDefs c))]

/-- What `emitPy` makes of a contract: the file's name, the schema document, header and tail. -/
structure PyFile where
  name : String
  schema : JsonTree.Slot Doc
  header : String
  tail : String

def emitPy (version : String) (contracts : List IrContract) : List PyFile :=
  contracts.map fun c =>
    ⟨c.service++".py",jsonStringify (schemaWrapper c),pyHeader version c,renderPyTail c⟩

end Clamator.Codegen
