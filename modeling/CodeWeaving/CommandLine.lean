import CodeWeaving.Format.Class
import CodeWeaving.Format.Record
import CodeWeaving.Json.Printer
import CodeWeaving.Weaving.Weaver

/-! The command line: what it asks for, and what is said and written for it. -/
namespace CodeWeaving.CommandLine

/-- An option that takes a value. -/
inductive ValueOption where
  | cls
  | directives
  | handlers
  | settings
  | output
  deriving DecidableEq

namespace ValueOption

def all : List ValueOption := [.cls, .directives, .handlers, .settings, .output]

def word : ValueOption → String
  | .cls => "class"
  | .directives => "directives"
  | .handlers => "handlers"
  | .settings => "settings"
  | .output => "output"

end ValueOption

inductive UsageError where
  | unexpected (argument : String)
  | needlessValue (option : String)
  | noValue (option : ValueOption)
  | repeated (option : String)
  | missing (option : ValueOption)
  deriving DecidableEq

def UsageError.message : UsageError → String
  | .unexpected argument => s!"unexpected argument '{argument}'"
  | .needlessValue option => s!"--{option} takes no value"
  | .noValue option => s!"--{option.word} needs a value"
  | .repeated option => s!"--{option} is given twice"
  | .missing option => s!"--{option.word} is required"

/-- The documents that a weaving starts from, by their paths or by their texts. -/
structure Documents where
  cls : String
  directives : String
  handlers : List String
  settings : Option String
  deriving DecidableEq

/-- The texts at some paths. -/
def Documents.read {m : Type → Type} [Monad m] (text : String → m String) (paths : Documents) :
    m Documents := do
  let settings ← paths.settings.mapM text
  let cls ← text paths.cls
  let directives ← text paths.directives
  let handlers ← paths.handlers.mapM text
  pure { cls, directives, handlers, settings }

/-- A weaving that is asked for, and what to do with the woven class. -/
structure Request where
  documents : Documents
  output : Option String
  listing : Bool
  deriving DecidableEq

inductive Invocation where
  | weave (request : Request)
  | help
  | version
  deriving DecidableEq

/-- What the arguments so far have given. Only handlers may be given more than once. -/
structure Given where
  cls : Option String := none
  directives : Option String := none
  handlers : List String := []
  settings : Option String := none
  output : Option String := none
  listing : Bool := false

namespace Given

def once (option : ValueOption) (old : Option String) (value : String) :
    Except UsageError (Option String) :=
  if old.isSome then .error (.repeated option.word) else .ok (some value)

def set (g : Given) (option : ValueOption) (value : String) : Except UsageError Given :=
  match option with
  | .cls => (once option g.cls value).map fun cls => { g with cls }
  | .directives => (once option g.directives value).map fun directives => { g with directives }
  | .handlers => .ok { g with handlers := g.handlers ++ [value] }
  | .settings => (once option g.settings value).map fun settings => { g with settings }
  | .output => (once option g.output value).map fun output => { g with output }

def setListing (g : Given) : Except UsageError Given :=
  if g.listing then .error (.repeated "listing") else .ok { g with listing := true }

def request (g : Given) : Except UsageError Request :=
  match g.cls, g.directives with
  | some cls, some directives =>
    .ok ⟨⟨cls, directives, g.handlers, g.settings⟩, g.output, g.listing⟩
  | none, _ => .error (.missing .cls)
  | _, none => .error (.missing .directives)

end Given

/-- What an argument is by itself. -/
inductive Argument where
  | option (option : ValueOption) (value : Option String)
  | listing
  | help
  | version
  /-- After this, options are no longer read as such. -/
  | endOfOptions

/-- The word of a long option, and the value that an equals sign attaches to it. -/
def splitValue (cs : List Char) : String × Option String :=
  match cs.dropWhile (· ≠ '=') with
  | [] => (String.ofList cs, none)
  | _ :: value => (String.ofList (cs.takeWhile (· ≠ '=')), some (String.ofList value))

def flag (word : String) (attached : Option String) (a : Argument) : Except UsageError Argument :=
  if attached.isSome then .error (.needlessValue word) else .ok a

/-- Of short options in one argument, the first decides. -/
def Argument.ofString (argument : String) : Except UsageError Argument :=
  match argument.toList with
  | ['-', '-'] => .ok .endOfOptions
  | '-' :: '-' :: cs =>
    let (word, attached) := splitValue cs
    match ValueOption.all.find? (·.word = word) with
    | some o => .ok (.option o attached)
    | none => match word with
      | "listing" => flag word attached .listing
      | "help" => flag word attached .help
      | "version" => flag word attached .version
      | _ => .error (.unexpected argument)
  | '-' :: 'h' :: _ => .ok .help
  | '-' :: 'V' :: _ => .ok .version
  | _ => .error (.unexpected argument)

/-- Whether an argument can be the value of the option before it. A lone dash can. -/
def isValue (argument : String) : Bool := argument = "-" || !argument.startsWith "-"

/-- Reads arguments in order; the first mistake or call for help ends the reading. -/
def parseFrom (g : Given) : List String → Except UsageError Invocation
  | [] => g.request.map .weave
  | argument :: rest => do
    match ← Argument.ofString argument with
    | .help => pure .help
    | .version => pure .version
    | .listing => do
      let g ← g.setListing
      parseFrom g rest
    | .endOfOptions => match rest with
      | [] => g.request.map .weave
      | next :: _ => throw (.unexpected next)
    | .option option (some value) => do
      let g ← g.set option value
      parseFrom g rest
    | .option option none => match rest with
      | [] => throw (.noValue option)
      | value :: rest =>
        if isValue value then do
          let g ← g.set option value
          parseFrom g rest
        else throw (.noValue option)

def parse (arguments : List String) : Except UsageError Invocation := parseFrom {} arguments

def version : String := "Bytecode weaver 0.1.0\n"

def helpLines : List String :=
  ["Weave handler directives into a class definition",
    "",
    "Usage: weave [OPTIONS] --class <CLASS_JSON> --directives <DIRECTIVES_JSON>",
    "",
    "Options:",
    "      --class <CLASS_JSON>            Class to weave, as JSON",
    "      --directives <DIRECTIVES_JSON>  JSON array of directive records",
    "      --handlers <CLASS_JSON>         Handler class, as JSON (may be repeated)",
    "      --settings <SETTINGS_JSON>      Weaver settings (unspecified fields keep their defaults)",
    "      --output <OUTPUT_JSON>          Write the woven class here",
    "      --listing                       Print the woven class",
    "  -h, --help                          Print help",
    "  -V, --version                       Print version"]

def help : String := String.join (helpLines.map (· ++ "\n"))

/-- Why the documents do not make a weaving. -/
inductive DocumentError where
  | settings
  | cls
  | handlers
  | model (error : ModelError)
  | registry (error : RegistryError)
  deriving DecidableEq

def DocumentError.message : DocumentError → String
  | .settings => "the settings are not of the form wanted"
  | .cls => "the class is not of the form wanted"
  | .handlers => "a handler class is not of the form wanted"
  | .model error => error.message
  | .registry .json => "the directives are not of the form wanted"
  | .registry (.record error) => error.message

/-- A value from a document's text, if it is of the form wanted. -/
def readAs {α : Type} (decode : Decoder α) (text : String) (e : DocumentError) :
    Except DocumentError α :=
  match Json.parse? text with
  | none => .error e
  | some v => (decode v).mapError fun _ => e

def readClass (e : DocumentError) (text : String) : Except DocumentError ClassDefinition := do
  let c ← readAs ClassDefinition.ofJson text e
  c.checked.mapError .model

def readSettings : Option String → Except DocumentError Settings
  | none => .ok .standard
  | some text => readAs Settings.ofJson text .settings

/-- Weaves what the documents' texts say. -/
def Documents.weave (texts : Documents) : Except DocumentError Woven := do
  let settings ← readSettings texts.settings
  let c ← readClass .cls texts.cls
  let registry ← (Registry.ofText texts.directives settings).mapError .registry
  let handlers ← texts.handlers.mapM (readClass .handlers)
  pure (Weaver.weaveRegistered settings (HandlerLibrary.ofList handlers).provider c registry)

/-- The line that says what became of a directive. -/
def outcomeLine (o : Outcome) : String :=
  match o.status with
  | .applied =>
    s!"applied  {o.directive.text} ({o.points} point(s) in {methodList o.methods})\n"
  | .skipped cause => s!"skipped  {o.directive.text}: {cause.message}\n"
  | .failed cause => s!"failed   {o.directive.text}: {cause.message}\n"

/-- What is said about a weaving. -/
def Request.report (r : Request) (woven : Woven) : String :=
  String.join (woven.outcomes.map outcomeLine) ++ (if r.listing then woven.cls.listing else "")

/-- What is written to the output: the woven class. -/
def outputText (woven : Woven) : String := woven.cls.toJson.indented

end CodeWeaving.CommandLine
