import ExprLang.Cbor.Field
import ExprLang.Cbor.Reader
import ExprLang.Chunk.Basic
import ExprLang.Digest.Sha256

/-! Chunks as bytes: a CBOR map with the numbered fields version, code, lines, constants and strings.
Only chunks that refer to nothing missing are read back. -/

namespace ExprLang

/-- A chunk as it is written, before its parts are checked against each other. -/
structure ChunkRecord where
  version : Nat
  code : Text
  lines : List Int64
  constants : List (Nat × UInt64)
  strings : List Text
  deriving DecidableEq

inductive DecodeError where
  | notCbor
  | version (found : Nat)
  | lineCount (code lines : Nat)
  | constantCount (count : Nat)
  | duplicateString (index : Nat)
  | unknownKind (index kind : Nat)
  | nilPayload (index : Nat) (word : UInt64)
  | boolPayload (index : Nat) (word : UInt64)
  | missingObject (index : Nat) (ref : UInt32)
  deriving DecidableEq

namespace DecodeError

def message : DecodeError → Text
  | notCbor => utf8 "bytecode: unmarshal chunk"
  | version found =>
    utf8 "bytecode: chunk encoding version " ++ Text.ofNat found ++ utf8 ", want 1"
  | lineCount code lines =>
    utf8 "bytecode: " ++ Text.ofNat code ++ utf8 " code bytes but " ++ Text.ofNat lines ++
      utf8 " line entries"
  | constantCount count =>
    utf8 "bytecode: " ++ Text.ofNat count ++ utf8 " constants: " ++
      utf8 ChunkError.tooManyConstants.message
  | duplicateString index =>
    utf8 "bytecode: string " ++ Text.ofNat index ++ utf8 " duplicates an earlier entry"
  | unknownKind index kind =>
    utf8 "bytecode: constant " ++ Text.ofNat index ++ utf8 " has unknown kind " ++ Text.ofNat kind
  | nilPayload index word =>
    utf8 "bytecode: nil constant " ++ Text.ofNat index ++ utf8 " has payload 0x" ++
      Text.hexOfNat word.toNat
  | boolPayload index word =>
    utf8 "bytecode: bool constant " ++ Text.ofNat index ++ utf8 " has payload 0x" ++
      Text.hexOfNat word.toNat
  | missingObject index ref =>
    utf8 "bytecode: constant " ++ Text.ofNat index ++ utf8 " references missing object " ++
      Text.ofNat ref.toNat

end DecodeError

namespace ChunkRecord

open Cbor

def currentVersion : Nat := 1

def unsignedText (n : Nat) : Text :=
  Head.write 0 n

def integerText (z : Int) : Text :=
  if z < 0 then Head.write 1 (-1 - z).toNat else Head.write 0 z.toNat

def bytesText (t : Text) : Text :=
  Head.write 2 t.length ++ t

def stringText (t : Text) : Text :=
  Head.write 3 t.length ++ t

def arrayText (items : List Text) : Text :=
  Head.write 4 items.length ++ items.flatten

/-- A map with the keys 1, 2, … in order. -/
def recordText (fields : List Text) : Text :=
  Head.write 5 fields.length ++
    (fields.zipIdx 1).flatMap fun (field, number) => unsignedText number ++ field

def constantText (v : Value) : Text :=
  recordText [unsignedText v.kind.code, unsignedText v.word.toNat]

def nullText : Text := [0xF6]

/-- A constant: the code of its kind, and its payload. -/
def constant? (i : Item) : Option (Nat × UInt64) := do
  let fields ← fields? i
  let kind ← field? fields 1 (integer? 0 255) 0
  let word ← field? fields 2 (integer? 0 0xFFFFFFFFFFFFFFFF) 0
  return (kind.toNat, UInt64.ofNat word.toNat)

def ofItem? (i : Item) : Option ChunkRecord := do
  let fields ← fields? i
  let version ← field? fields 1 (integer? 0 65535) 0
  let code ← field? fields 2 bytes? []
  let line (i : Item) : Option Int64 := (integer? Int64.minValue.toInt Int64.maxValue.toInt i).map Int64.ofInt
  let lines ← field? fields 3 (list? line) []
  let constants ← field? fields 4 (list? constant?) []
  let strings ← field? fields 5 (list? text?) []
  return { version := version.toNat, code, lines, constants, strings }

/-- The table of the given strings, which have to be distinct. -/
def tableInto (table : StringTable) : List Text → Except DecodeError StringTable
  | [] => .ok table
  | s :: more =>
    match table.intern s with
    | (i, after) => if i = table.size then tableInto after more else .error (.duplicateString table.size)

/-- The constant with a given kind and payload. -/
def value (strings : StringTable) (index kind : Nat) (word : UInt64) : Except DecodeError Value :=
  match ValueKind.ofCode? kind with
  | none => .error (.unknownKind index kind)
  | some .nil => if word = 0 then .ok .nil else .error (.nilPayload index word)
  | some .bool =>
    if word = 0 then .ok (.bool false) else if word = 1 then .ok (.bool true)
    else .error (.boolPayload index word)
  | some .integer => .ok (.integer word.toInt64)
  | some .double => .ok (.double word)
  | some .object =>
    if (strings.get? word.toUInt32).isSome then .ok (.object word)
    else .error (.missingObject index word.toUInt32)

def valuesInto (strings : StringTable) (read : Array Value) :
    List (Nat × UInt64) → Except DecodeError (Array Value)
  | [] => .ok read
  | (kind, word) :: more =>
    match value strings read.size kind word with
    | .error e => .error e
    | .ok v => valuesInto strings (read.push v) more

/-- Checks the parts of a chunk against each other. -/
def toChunk (w : ChunkRecord) : Except DecodeError Chunk := do
  if w.version ≠ currentVersion then throw (.version w.version)
  if w.code.length ≠ w.lines.length then throw (.lineCount w.code.length w.lines.length)
  if Chunk.poolLimit < w.constants.length then throw (.constantCount w.constants.length)
  let strings ← tableInto {} w.strings
  let constants ← valuesInto strings #[] w.constants
  return { code := w.code.toArray, lineTable := some w.lines.toArray, constants, strings }

end ChunkRecord

namespace Chunk

open ChunkRecord in
/-- A chunk as bytes. -/
def encode (c : Chunk) : Text :=
  recordText [
    unsignedText currentVersion,
    bytesText c.code.toList,
    match c.lineTable with
    | none => nullText
    | some lines => arrayText (lines.toList.map fun line => integerText line.toInt),
    arrayText (c.constants.toList.map constantText),
    arrayText (c.strings.entries.toList.map stringText)]

/-- The chunk that some bytes encode. -/
def decode (t : Text) : Except DecodeError Chunk :=
  match (Cbor.read? t).bind ChunkRecord.ofItem? with
  | none => .error .notCbor
  | some w => w.toChunk

/-- A digest of everything that is written of a chunk. -/
def fingerprint (c : Chunk) : Text :=
  Sha256.digest c.encode

end Chunk

end ExprLang
