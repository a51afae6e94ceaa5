import Highlight.Listing

/-!
# The command line

The options of the program, and what a run of it writes. Options are read from left to
right; the first one that asks for help or the version, or cannot be read, decides. Files
are reached through a `FileSystem`, so that a run is a plain function of what the files
hold. The columns of characters and the reader of documents come with it (`Conventions`).
-/

namespace Highlight.CommandLine

inductive UsageError
  | unknownOption (option : Text)
  | extraFile
  | missingFile
  | missingValue (option : Text)
  | badValue (value option : Text)
  deriving DecidableEq, Repr

def UsageError.message : UsageError → String
  | unknownOption o => "unknown option `" ++ String.ofList o ++ "`"
  | extraFile => "only one FILE may be given"
  | missingFile => "missing FILE (see --help)"
  | missingValue o => "`" ++ String.ofList o ++ "` needs a value"
  | badValue v o => "invalid value `" ++ String.ofList v ++ "` for `" ++ String.ofList o ++ "`"

inductive FileError
  | notFound
  | isDirectory
  | notUtf8
  | other (description : String)
  deriving DecidableEq, Repr

def FileError.message : FileError → String
  | notFound => "I/O error: No such file or directory (os error 2)"
  | isDirectory => "I/O error: Is a directory (os error 21)"
  | notUtf8 => "I/O error: stream did not contain valid UTF-8"
  | other d => "I/O error: " ++ d

inductive RunError
  | usage (e : UsageError)
  | file (e : FileError)
  | settings (e : SettingsError)

def RunError.message : RunError → String
  | usage e => e.message
  | file e => e.message
  | settings e => e.message

structure Options where
  settingsPath : Option Text := none
  lines : Option (Nat × Nat) := none
  columns : Option Window := none
  color : Option Bool := none
  file : Option Text := none
  deriving DecidableEq, Repr

inductive Request
  | help
  | version
  | list (options : Options) (file : Text)
  deriving DecidableEq, Repr

/-! ## Ranges -/

def isSpace (c : Char) : Bool :=
  let n := c.toNat
  (9 ≤ n && n ≤ 13) || n = 0x20 || n = 0x85 || n = 0xA0 || n = 0x1680 ||
    (0x2000 ≤ n && n ≤ 0x200A) || n = 0x2028 || n = 0x2029 || n = 0x202F || n = 0x205F ||
    n = 0x3000

def trim (t : Text) : Text := ((t.dropWhile isSpace).reverse.dropWhile isSpace).reverse

def number? (t : Text) : Option Nat :=
  let digits := match t with
    | '+' :: t => t
    | t => t
  if digits = [] ∨ !digits.all Char.isDigit then none
  else
    let n := Toml.decimalValue digits
    if n < UInt64.size then some n else none

def range? (t : Text) : Option (Nat × Nat) :=
  let start := t.takeWhile (· ≠ ':')
  match t.drop start.length with
  | [] => none
  | _ :: stop => do return (← number? (trim start), ← number? (trim stop))

/-- Lines are counted from one, and the last one is meant too. -/
def lineRange? (t : Text) : Option (Nat × Nat) :=
  match range? t with
  | some (first, last) => if 1 ≤ first ∧ first ≤ last then some (first - 1, last) else none
  | none => none

def columnRange? (t : Text) : Option Window :=
  match range? t with
  | some (start, stop) => if start < stop then some ⟨start, stop⟩ else none
  | none => none

/-! ## Options -/

inductive Flag
  | help
  | version
  | settings
  | lines
  | columns
  | color
  | noColor
  deriving DecidableEq, Repr

def flags : List (String × Flag) :=
  [("--help", .help), ("-h", .help), ("--version", .version), ("-V", .version),
    ("--config", .settings), ("-c", .settings), ("--lines", .lines), ("-l", .lines),
    ("--cols", .columns), ("--color", .color), ("--no-color", .noColor)]

def flag? (arg : Text) : Option Flag :=
  (flags.find? fun f => f.1.toList = arg).map Prod.snd

def setValue? (o : Options) (value : Text) : Flag → Option Options
  | .settings => some { o with settingsPath := some value }
  | .lines => (lineRange? value).map fun r => { o with lines := some r }
  | .columns => (columnRange? value).map fun w => { o with columns := some w }
  | _ => none

def parse : Options → List Text → Except UsageError Request
  | o, [] =>
    match o.file with
    | some f => .ok (.list o f)
    | none => .error .missingFile
  | o, arg :: args =>
    match flag? arg with
    | some .help => .ok .help
    | some .version => .ok .version
    | some .color => parse { o with color := some true } args
    | some .noColor => parse { o with color := some false } args
    | some f =>
      match args with
      | [] => .error (.missingValue arg)
      | value :: args =>
        match setValue? o value f with
        | some o => parse o args
        | none => .error (.badValue value arg)
    | none =>
      if arg.head? = some '-' then .error (.unknownOption arg)
      else if o.file.isSome then .error .extraFile
      else parse { o with file := some arg } args

/-! ## Runs -/

/-- What a run takes for granted: the columns of a character, and what a document says if it can
be read. -/
structure Conventions where
  width : Char → Nat := charWidth
  document? : Text → Option Toml.Entries := Toml.parse?

structure FileSystem (m : Type → Type) extends Conventions where
  read : Text → m (Except FileError Text)
  isPresent : Text → m Bool
  settingsPath : Option Text
  terminal : Bool

structure Outcome where
  code : Nat := 0
  output : Text := []
  errors : String := ""
  deriving DecidableEq, Repr

def versionText : String := "zighl 0.1.0"

def usageLines : List String :=
  [versionText ++ " - Zig syntax highlighter",
    "",
    "Usage: zighl [OPTIONS] FILE",
    "",
    "Options:",
    "  -c, --config PATH    Read settings from PATH instead of ~/.zighl.toml",
    "  -l, --lines S:E      Print lines S through E (1-based, inclusive)",
    "      --cols S:E       Print display columns S up to E (0-based)",
    "      --color          Always emit colors",
    "      --no-color       Never emit colors",
    "  -h, --help           Show this help message",
    "  -V, --version        Show version information",
    "",
    "Set ZIGHL_LOG (e.g. ZIGHL_LOG=debug) to see diagnostics on stderr."]

def outputLines (lines : List String) : Text := lines.flatMap fun l => l.toList ++ ['\n']

variable {m : Type → Type} [Monad m]

def loadSettings (fs : FileSystem m) (path : Text) : m (Except RunError Settings) := do
  match ← fs.read path with
  | .error e => return .error (.file e)
  | .ok t =>
    match ({} : Settings).applyDocument (fs.document? t) with
    | (s, none) => return .ok s
    | (_, some e) => return .error (.settings e)

def settings (fs : FileSystem m) (o : Options) : m (Except RunError Settings) := do
  match o.settingsPath, fs.settingsPath with
  | some path, _ => loadSettings fs path
  | none, some path => if ← fs.isPresent path then loadSettings fs path else return .ok {}
  | none, none => return .ok {}

def listing (fs : FileSystem m) (o : Options) (file : Text) : m (Except RunError Listing) := do
  match ← settings fs o with
  | .error e => return .error e
  | .ok s =>
    match ← fs.read file with
    | .error e => return .error (.file e)
    | .ok content =>
      return .ok {
        settings := s
        path := file
        content := content
        lines := o.lines
        columns := o.columns
        coloring := if o.color.getD fs.terminal then .colored else .plain
        width := fs.width }

def failure (e : RunError) : Outcome := { code := 1, errors := "Error: " ++ e.message ++ "\n" }

def run (fs : FileSystem m) (args : List Text) : m Outcome := do
  match parse {} args with
  | .error e => return failure (.usage e)
  | .ok .help => return { output := outputLines usageLines }
  | .ok .version => return { output := outputLines [versionText] }
  | .ok (.list o file) =>
    match ← listing fs o file with
    | .error e => return failure e
    | .ok l => return { output := l.text }

end Highlight.CommandLine
