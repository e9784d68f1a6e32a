import SpanScript.Template.Files
import SpanScript.Template.Rendering

/-!
# The command

The program takes the path of a template and renders it to the output.
Everything that can be wrong with the arguments is found before any file is
touched.  What goes wrong is told in one line on the error stream, and the exit
status says whether anything did.

With the log turned on, the error stream also has a line for each step.  The
log is set by the name of a level.  A name that stands for nothing leaves the
log off, but a name that stands for another setting of the log is refused before
anything else is done.
-/

namespace SpanScript.Command

def program : String := "ziggle"

def usage : String := "Usage: " ++ program ++ " FILE"

/-- The exit status when all went well. -/
def success : Nat := 0

/-- The exit status when anything went wrong. -/
def failure : Nat := 255

/-- What the arguments ask for. -/
inductive Request
  | render (path : String)
  | usage
  | unknownOption (arg : String)
  | extraArguments
  deriving DecidableEq, Repr

/-- Reads the arguments.  An option is refused wherever it stands. -/
def Request.ofArguments (args : List String) : Request :=
  match args.find? (·.startsWith "-") with
  | some arg => .unknownOption arg
  | none =>
    match args with
    | [] => .usage
    | [path] => .render path
    | _ => .extraArguments

/-- What a run of the program leaves behind: the exit status, the output, and
the lines on the error stream. -/
structure Report where
  code : Nat
  output : Bytes
  errors : List String
  deriving DecidableEq, Repr

/-- A setting of the log that is no level, although it was named as one. -/
inductive LevelFault
  | lineFormat
  | formatStyles
  deriving DecidableEq, Repr

/-- What is said of a setting that is no level; it is shown as it is set. -/
def LevelFault.message : LevelFault → String
  | lineFormat => "Unknown level: '%(levelname)s:%(name)s:%(message)s'"
  | formatStyles =>
    "Level not an integer or a valid string: \x7b"
      ++ "'%': (<class 'logging.PercentStyle'>, '%(levelname)s:%(name)s:%(message)s'), "
      ++ "'\x7b': (<class 'logging.StrFormatStyle'>, "
      ++ "'\x7blevelname\x7d:\x7bname\x7d:\x7bmessage\x7d'), "
      ++ "'$': (<class 'logging.StringTemplateStyle'>, "
      ++ "'$\x7blevelname\x7d:$\x7bname\x7d:$\x7bmessage\x7d')\x7d"

inductive Ending
  | reported (r : Report)
  | wrongLevel (f : LevelFault)
  | escaped (message : String)
  | unfinished
  deriving DecidableEq, Repr

/-- The line that tells what went wrong. -/
def diagnostic (who message : String) : String := who ++ ": error: " ++ message

/-- The report of a program that fails before it has written anything. -/
def refuse (line : String) : Ending := .reported ⟨failure, [], [line]⟩

namespace Log

/-- Whether a level of the log, by its name in either case, shows the steps of
a render.  Without a name, and by a name that stands for nothing, it does not. -/
def showsSteps (level : Option String) : Except LevelFault Bool :=
  match level.map Case.upper with
  | some "DEBUG" | some "NOTSET" => .ok true
  | some "BASIC_FORMAT" => .error .lineFormat
  | some "_STYLES" => .error .formatStyles
  | _ => .ok false

def line (part text : String) : String := "[DEBUG] " ++ part ++ ": " ++ text

def opened (t : Template) : String :=
  line "source" ("loaded " ++ t.path ++ ": " ++ toString t.raw.length ++ " bytes via "
    ++ t.holding.name ++ ", directive " ++ toString t.start ++ " bytes")

def closed (t : Template) : String := line "source" ("released " ++ t.path)

/-- What is logged about a statement that was run. -/
def statement (t : Template) (span : Nat × Nat) : String :=
  line "render" (t.path ++ ": statement [" ++ toString span.1 ++ ", " ++ toString span.2 ++ ")")

def finished (t : Template) (r : Rendering) : List String :=
  if r.phase = .done then
    [line "render" (t.path ++ ": rendered " ++ toString r.scriptSpans.length ++ " spans")]
  else []

def ofRendering (t : Template) (r : Rendering) : List String :=
  opened t :: (r.scriptSpans.map (statement t) ++ finished t r ++ [closed t])

end Log

/-- Renders an opened template with the statement language. -/
def renderTemplate (t : Template) : Option RenderStop × RenderJob Session :=
  RenderJob.fresh.render .session .standard t

def report (steps : Bool) (t : Template) : Ending :=
  let (stop, job) := renderTemplate t
  let log := if steps then Log.ofRendering t job.rendering else []
  match stop with
  | none => .reported ⟨success, job.rendering.output, log⟩
  | some (.fault f) =>
    .reported ⟨failure, job.rendering.output, log ++ [diagnostic t.path f.message]⟩
  | some .reused => .escaped reusedMessage
  | some (.escaped message) => .escaped message
  | some .unfinished => .unfinished

/-- Renders the template at a path, from what reading it gave. -/
def render (steps : Bool) (path : String) (contents : Except FileProblem Bytes) : Ending :=
  match Template.open? path none contents with
  | .error f => refuse (diagnostic path f.message)
  | .ok t => report steps t

/-- What is said of a path that no file can have. -/
def nulMessage : String := "embedded null byte"

/-- Runs the program on arguments; `read` gives the bytes of a file. -/
def run (steps : Bool) (read : String → Except FileProblem Bytes) (args : List String) : Ending :=
  match Request.ofArguments args with
  | .unknownOption arg => refuse (diagnostic program ("unknown cmdline option '" ++ arg ++ "'"))
  | .extraArguments => refuse (diagnostic program "script cmdline args not implemented")
  | .usage => refuse usage
  | .render path =>
    if path.toList.contains (Char.ofNat 0) then .escaped nulMessage
    else render steps path (read path)

/-- Runs the program with the log set by the name of a level. -/
def runAtLevel (level : Option String) (read : String → Except FileProblem Bytes)
    (args : List String) : Ending :=
  match Log.showsSteps level with
  | .error f => .wrongLevel f
  | .ok steps => run steps read args

end SpanScript.Command
