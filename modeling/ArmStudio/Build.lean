import ArmStudio.Code.Image
import ArmStudio.Code.StorageDocument
import ArmStudio.Disk
import ArmStudio.Script.Check
import ArmStudio.Script.Parser
import ArmStudio.Text.Utf8

/-!
# Builds

A build takes the bytes of a source file through all stages, tells its progress and leaves files:
the outline of the tree, the listing, the storage and the byte file. A file is created before its
content is made, so that an error in between leaves it empty.
-/

namespace ArmStudio

open Number Script Code

inductive BuildError where
  | scan (cause : ScanError)
  | parse (cause : ParseError)
  | check (cause : CheckError)
  | outline (cause : TypeError)
  | gen (cause : GenError)
  | link (cause : LinkError)
  | text (cause : TextError)
  | tooLarge (what : String) (size : Int)
  deriving DecidableEq

namespace BuildError

def message : BuildError → String
  | scan cause => cause.message
  | parse cause => cause.message
  | check cause => cause.message
  | outline cause => cause.message
  | gen cause => cause.message
  | link cause => cause.message
  | text cause => textErrorMessage cause
  | tooLarge what size => s!"{what} occupied {size} bytes, max 65536 bytes."

end BuildError

inductive Content where
  | text (s : String)
  | bytes (b : List UInt8)
  deriving DecidableEq

namespace Content

def toBytes : Content → List UInt8
  | text s => s.toByteArray.toList
  | bytes b => b

end Content

structure Build where
  messages : List String
  files : Table Content
  success : Bool

namespace Build

def start : Build := ⟨[], .empty, false⟩

variable (b : Build)

def say (message : String) : Build := { b with messages := b.messages ++ [message] }

def write (name : String) (content : Content) : Build :=
  { b with files := b.files.insert name content }

def fail (e : BuildError) : Build := b.say ("Error: " ++ e.message)

def andThen {ε α : Type} (b : Build) (wrap : ε → BuildError) (r : Except ε α)
    (next : α → Build) : Build :=
  match r with
  | .ok a => next a
  | .error e => b.fail (wrap e)

/-- Writes a text file, which stays empty if the text cannot be made. -/
def writeText (name : String) (content : Except TextError String)
    (next : Build → Build) : Build :=
  (b.write name (.text "")).andThen .text content fun s => next (b.write name (.text s))

def sizeLimit : Int := 65536

def stackSize : Int := 4096

/-- Bytes of a byte file that are neither code nor constants. -/
def frameSize : Int := 4 + 2 + 2 + 16

structure Sizes where
  flash : Int
  program : Int
  constants : Int
  globals : Int

/-- The sizes as they are told: constants and globals are counted by name. -/
def Sizes.of (file : List UInt8) (storage : Storage) : Sizes :=
  let constants : Int := storage.constants.size * 4
  ⟨file.length, file.length - (frameSize + constants), constants, storage.globals.size * 4⟩

def Sizes.error? (s : Sizes) : Option BuildError :=
  if s.program > sizeLimit then some (.tooLarge "Program" s.program)
  else if s.constants > sizeLimit then some (.tooLarge "Constant" s.constants)
  else if s.globals > sizeLimit then some (.tooLarge "Global" s.globals)
  else none

def Sizes.report (s : Sizes) : List String := [s!"Flash occupied: {s.flash} bytes",
    s!"Memory occupied: {s.constants + s.globals + stackSize + s.program} bytes",
    s!"-program: {s.program} bytes", s!"-constant: {s.constants} bytes",
    s!"-global: {s.globals} bytes", s!"-stack: {stackSize} bytes"]

variable (project : String)

def emit (a : Assembly) (s : GenState) : Build :=
  let b := b.say "Generating bytecode..."
  b.andThen .link (link a s.labels).file fun file =>
    let b := b.write (project ++ ".byte") (.bytes file)
    let sizes := Sizes.of file s.storage
    match sizes.error? with
    | some e => b.fail e
    | none => { (sizes.report.foldl say b).say "Compile success!\n\n" with success := true }

def generate (symbols : Symbols) (p : Program) : Build :=
  b.andThen .outline p.outline fun outline =>
    b.writeText "ast.json" outline.text? fun b =>
      let b := b.say "Assembling..."
      b.andThen .gen (assemble symbols p) fun (a, s) =>
        b.writeText (project ++ ".asm") a.text? fun b =>
          b.writeText "debug_info.json" s.storage.document.text? fun b => b.emit project a s

def compile (source : List Char) : Build :=
  let b := (start.say "Start compiling...").say "Tokenizing..."
  b.andThen .scan (scan source) fun tokens =>
    let b := b.say "Parsing..."
    b.andThen .parse (Program.ofTokens tokens) fun (p, symbols) =>
      let checked := p.check symbols
      b.andThen .check checked.outcome fun _ =>
        (checked.hints.foldl (fun b h => b.say h.text) b).generate project symbols checked.tree

end Build

/-- A file name without its extension. Leading dots do not start one. -/
def stem (fileName : String) : String :=
  let cs := fileName.toList
  let dots := cs.takeWhile (· == '.')
  let name := cs.dropWhile (· == '.')
  match name.reverse.dropWhile (· != '.') with
  | [] => fileName
  | _ :: before => String.ofList (dots ++ before.reverse)

def buildFolder (source : String) : String := Disk.join (Disk.parent source) "build"

def byteFile (source : String) : String :=
  Disk.join (buildFolder source) (stem (Disk.fileName source) ++ ".byte")

/-- Builds a source file, if there is one. Bytes that are no text stop before anything is told. -/
def buildFile (fileName : String) : Option (List UInt8) → Except Text.Utf8.DecodeError Build
  | none => .ok (Build.start.say "Error: File not found.")
  | some bytes => do
    let source ← Text.Utf8.decode bytes
    return Build.compile (stem fileName) (Text.Utf8.unifyLines source)

end ArmStudio
