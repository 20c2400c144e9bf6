import ZeroWidth.Surface

/-!
# Commands

The command line is a command and its arguments: options, which begin with a dash, and files, in any
order. Behind `--` everything is a file. Arguments are read from left to right, and the first that
cannot be accepted, or that asks for the version or for help, ends the reading. No option may be
given twice.
-/

namespace ZeroWidth

inductive Command where
  /-- Checks files, all of them strictly if asked for. -/
  | check (files : List String) (strict : Bool)
  /-- Prints a file on another surface. The surface it is written on can be given. -/
  | convert (file : String) (target : Surface) (source : Option Surface)
deriving DecidableEq

/-- Why there is no command to carry out. -/
inductive Interruption where
  | usage
  | version
  | help
deriving DecidableEq

namespace Command

/-- Which command is being read. -/
inductive Verb where
  | check
  | convert
deriving DecidableEq

/-- The arguments read so far; the latest file comes first. -/
structure Arguments where
  files   : List String
  strict  : Bool
  verbose : Bool
  target  : Option Surface
  source  : Option Surface

def Arguments.none : Arguments := ⟨[], false, false, Option.none, Option.none⟩

/-- An option without a value, which may not have been given before. -/
def flag (given : Bool) (a : Arguments) : Except Interruption Arguments :=
  if given then .error .usage else .ok a

def addFile (verb : Verb) (a : Arguments) (file : String) : Except Interruption Arguments :=
  if file.isEmpty || (verb = .convert && !a.files.isEmpty) then .error .usage
  else .ok { a with files := file :: a.files }

def addTarget (a : Arguments) (word : String) : Except Interruption Arguments :=
  match a.target, Surface.ofName? word with
  | Option.none, some surface => .ok { a with target := some surface }
  | _,           _            => .error .usage

def addSource (a : Arguments) (word : String) : Except Interruption Arguments :=
  match a.source, Surface.ofName? word with
  | Option.none, some surface => .ok { a with source := some surface }
  | _,           _            => .error .usage

/-- Short options, several of which may share a dash. -/
def shortOptions : Arguments → List Char → Except Interruption Arguments
  | a, []        => .ok a
  | a, 'v' :: cs => do shortOptions (← flag a.verbose { a with verbose := true }) cs
  | _, 'h' :: _  => .error .help
  | _, _         => .error .usage

/-- A long option without a value. -/
def longFlag (verb : Verb) (a : Arguments) (name : String) : Except Interruption Arguments :=
  if name = "verbose" then flag a.verbose { a with verbose := true }
  else if name = "strict" && verb = .check then flag a.strict { a with strict := true }
  else if name = "help" then .error .help
  else .error .usage

/-- A long option and its value. -/
def longOption (verb : Verb) (a : Arguments) (name value : String) :
    Except Interruption Arguments :=
  if verb = .convert && name = "to" then addTarget a value
  else if verb = .convert && name = "from" then addSource a value
  else .error .usage

def readFiles (verb : Verb) (a : Arguments) (files : List String) :
    Except Interruption Arguments :=
  files.foldlM (addFile verb) a

/-- Reads the arguments behind a command. -/
def readArguments (verb : Verb) (a : Arguments) : List String → Except Interruption Arguments
  | []          => .ok a
  | arg :: rest =>
    match arg.toList with
    | ['-', '-']       => readFiles verb a rest
    | '-' :: '-' :: cs =>
      let name := String.ofList (cs.takeWhile (· ≠ '='))
      match cs.dropWhile (· ≠ '=') with
      | _ :: value => do
        readArguments verb (← longOption verb a name (String.ofList value)) rest
      | [] =>
        if verb = .convert && (name = "to" || name = "from") then
          match rest with
          | value :: rest => do readArguments verb (← longOption verb a name value) rest
          | []            => .error .usage
        else do readArguments verb (← longFlag verb a name) rest
    | '-' :: c :: cs   => do readArguments verb (← shortOptions a (c :: cs)) rest
    | _                => do readArguments verb (← addFile verb a arg) rest

/-- The command of a verb and its arguments, if none is missing. -/
def ofArguments (verb : Verb) (a : Arguments) : Except Interruption Command :=
  match verb, a.files.reverse, a.target with
  | .check,   file :: files, _           => .ok (.check (file :: files) a.strict)
  | .convert, [file],        some target => .ok (.convert file target a.source)
  | _,        _,             _           => .error .usage

def verb? : String → Option Verb
  | "check"   => some .check
  | "convert" => some .convert
  | _         => Option.none

/-- Reads a command line. -/
def ofCommandLine : List String → Except Interruption Command
  | []          => .error .usage
  | word :: rest =>
    match verb? word with
    | some verb => do ofArguments verb (← readArguments verb .none rest)
    | Option.none =>
      if word = "--version" || word.startsWith "-V" then .error .version
      else if word = "--help" || word.startsWith "-h" then .error .help
      else if word = "help" && rest.all (fun name => (verb? name).isSome) && rest.length ≤ 1 then
        .error .help
      else .error .usage

/-- The files a command reads. -/
def files : Command → List String
  | check files _    => files
  | convert file _ _ => [file]

end Command

end ZeroWidth
