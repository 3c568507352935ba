import GoTree.Diagnostic.Render
import GoTree.Grammar.Run
import GoTree.Mapping.File
import GoTree.Syntax.Outline
import GoTree.Tree.Dump

/-!
# The command line

The arguments of the program, and what it prints for them.  Each path is read, mapped and written on
its own; the outputs are printed in the order of the paths, and a path that fails prints nothing but
makes the exit code one.

## Main definitions

* `Flag`, `Arguments`, `Arguments.read`: flags and paths, read from the argument list
* `World`, `World.readPath`: what can be read
* `Report`, `report`: the outcome of one path
* `Outcome`, `runCommand`: what the program prints and its exit code
-/

namespace GoTree

/-! ### Arguments -/

/-- The flags of the program. -/
inductive Flag where
  | dumpAst | text | relaxed | kinds | help | version
deriving DecidableEq, Repr

namespace Flag

/-- The flag with a long name. -/
def ofLong? : String → Option Flag
  | "dump-ast" => some .dumpAst
  | "text" => some .text
  | "relaxed" => some .relaxed
  | "kinds" => some .kinds
  | "help" => some .help
  | "version" => some .version
  | _ => none

/-- The flag with a short name. -/
def ofShort? : Char → Option Flag
  | 'd' => some .dumpAst
  | 't' => some .text
  | 'k' => some .kinds
  | 'h' => some .help
  | 'V' => some .version
  | _ => none

end Flag

/-- Why the arguments ask for no work. -/
inductive Interruption where
  /-- The arguments are wrong. -/
  | usage
  /-- The arguments ask for information about the program. -/
  | information
deriving DecidableEq, Repr

/-- Flags and paths. -/
structure Arguments where
  flags : List Flag
  paths : List String
deriving DecidableEq, Repr

namespace Arguments

/-- Adds a flag, which may be given only once. -/
def addFlag (arguments : Arguments) (flag : Flag) : Except Interruption Arguments :=
  if flag = .help ∨ flag = .version then .error .information
  else if flag ∈ arguments.flags then .error .usage
  else .ok { arguments with flags := arguments.flags ++ [flag] }

/-- Adds the flags named by the characters after a single dash. -/
def addShorts (arguments : Arguments) : List Char → Except Interruption Arguments
  | [] => .ok arguments
  | c :: rest =>
    match Flag.ofShort? c with
    | none => .error .usage
    | some flag =>
      match arguments.addFlag flag with
      | .error e => .error e
      | .ok arguments => addShorts arguments rest

/-- Adds paths. -/
def addPaths (arguments : Arguments) (paths : List String) : Arguments :=
  { arguments with paths := arguments.paths ++ paths }

/-- Adds the arguments of a list one after the other.  A lone dash is a path, and two dashes end the
flags. -/
def addAll (arguments : Arguments) : List String → Except Interruption Arguments
  | [] => .ok arguments
  | arg :: rest =>
    match arg.toList with
    | ['-', '-'] => .ok (arguments.addPaths rest)
    | '-' :: '-' :: name =>
      match Flag.ofLong? (String.ofList name) with
      | none => .error .usage
      | some flag =>
        match arguments.addFlag flag with
        | .error e => .error e
        | .ok arguments => addAll arguments rest
    | '-' :: c :: shorts =>
      match arguments.addShorts (c :: shorts) with
      | .error e => .error e
      | .ok arguments => addAll arguments rest
    | _ => addAll (arguments.addPaths [arg]) rest

/-- **Reads the arguments.**  There must be a path unless only the vocabulary is asked for. -/
def read (args : List String) : Except Interruption Arguments :=
  match addAll ⟨[], []⟩ args with
  | .error e => .error e
  | .ok arguments =>
    if arguments.paths = [] ∧ .kinds ∉ arguments.flags then .error .usage else .ok arguments

/-- Whether wrong tokens stop the mapping. -/
def strictness (arguments : Arguments) : Strictness :=
  if .relaxed ∈ arguments.flags then .relaxed else .strict

end Arguments

/-! ### Reading -/

/-- What can be read: files by path, and what is left of standard input. -/
structure World where
  files : String → Option ByteArray
  stdin : ByteArray

/-- The path that stands for standard input.  A dash with slashes behind it, which spells the same
path, is left out: it counts as the path of a file here. -/
def stdinPath : String := "-"

/-- Bytes as a text, if they encode one. -/
def decodeText? (bytes : ByteArray) : Option Text :=
  (String.fromUTF8? bytes).map String.toList

namespace World

/-- **Reads a path.**  Standard input is read to its end, so it can be read only once. -/
def readPath (world : World) (path : String) : Option Text × World :=
  if path = stdinPath then (decodeText? world.stdin, { world with stdin := .empty })
  else ((world.files path).bind decodeText?, world)

end World

/-! ### Reports -/

/-- The outcome of one path. -/
inductive Report where
  | output (text : String)
  | failed (message : String)
deriving DecidableEq, Repr

/-- What is printed for a source: its syntax tree, its tree as a dump, or its document. -/
def printSource (arguments : Arguments) (source : Source) : Except Diagnostic String :=
  match parse source.text with
  | .error e => .error e.toDiagnostic
  | .ok file =>
    if .dumpAst ∈ arguments.flags then .ok (file.outline.indented 0)
    else
      match mapFile source file arguments.strictness with
      | .error e => .error e.toDiagnostic
      | .ok document =>
        .ok (if .text ∈ arguments.flags then document.tree.dump else document.text)

/-- **The report for a path** whose text was read, or could not be.  The path is named by the program
and again by the reader; what the system says about it is left out. -/
def report (arguments : Arguments) (path : String) : Option Text → Report
  | none => .failed ("error: failed to read \x60" ++ path ++ "\x60: failed to read " ++ path)
  | some text =>
    match printSource arguments ⟨path, text⟩ with
    | .ok output => .output output
    | .error d => .failed (d.render path text)

/-- The reports for several paths, read one after the other. -/
def reports (arguments : Arguments) : World → List String → List Report
  | _, [] => []
  | world, path :: rest =>
    let (text, world) := world.readPath path
    report arguments path text :: reports arguments world rest

/-! ### Outcomes -/

/-- What the program prints, to standard output and to standard error, and its exit code. -/
structure Outcome where
  code : Nat
  stdout : String
  stderr : String
deriving DecidableEq, Repr

/-- The vocabulary of the generic tree, a tag a line. -/
def vocabulary : String :=
  String.join (Tag.all.map fun tag => tag.name ++ "\n")

/-- The printed part of a report. -/
def Report.stdout : Report → String
  | .output text => text ++ "\n"
  | .failed _ => ""

/-- The error message of a report. -/
def Report.stderr : Report → String
  | .output _ => ""
  | .failed message => message ++ "\n"

/-- Whether a report is of a failure. -/
def Report.isFailed : Report → Bool
  | .output _ => false
  | .failed _ => true

/-- The outcome of some reports. -/
def Outcome.ofReports (reports : List Report) : Outcome where
  code := if reports.any Report.isFailed then 1 else 0
  stdout := String.join (reports.map Report.stdout)
  stderr := String.join (reports.map Report.stderr)

/-- **Runs the program.** -/
def runCommand (args : List String) (world : World) : Outcome :=
  match Arguments.read args with
  | .error .usage => ⟨2, "", "error: invalid arguments\n"⟩
  | .error .information => ⟨0, "", ""⟩
  | .ok arguments =>
    if .kinds ∈ arguments.flags then ⟨0, vocabulary, ""⟩
    else .ofReports (reports arguments world arguments.paths)

end GoTree
