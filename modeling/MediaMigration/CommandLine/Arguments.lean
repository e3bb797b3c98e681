import MediaMigration.FileTree.Path
import MediaMigration.Resource.Kind

/-!
# Arguments

A command line is options of the program, the name of a command, and the options and
operands of that command. An option is given by its word behind two hyphens or by its
letter behind one; letters may stand together. Its value is the rest of the argument or
the next argument, which must not look like an option. Arguments are read from left to
right, and the first that asks for help or the version, or is wrong, decides.
-/

namespace MediaMigration

namespace CommandLine

inductive Flag where
  | help
  | version
  | verbose
  | kind
  | manifest
  | config
  | json
  | storageRoot
  | overwrite
deriving DecidableEq, Repr

namespace Flag

def letter? : Flag → Option Char
  | help => some 'h'
  | version => some 'V'
  | verbose => some 'v'
  | kind => some 'k'
  | manifest => some 'm'
  | config => some 'c'
  | json | storageRoot | overwrite => none

def word : Flag → String
  | help => "help"
  | version => "version"
  | verbose => "verbose"
  | kind => "kind"
  | manifest => "manifest"
  | config => "config"
  | json => "json"
  | storageRoot => "storage-root"
  | overwrite => "overwrite"

def takesValue : Flag → Bool
  | kind | manifest | config | storageRoot => true
  | help | version | verbose | json | overwrite => false

def accepts (option : Flag) (value : String) : Bool :=
  match option with
  | kind => (ResourceKind.ofName? value).isSome
  | _ => value != ""

end Flag

inductive Level where
  | program
  | validate
  | expand
  | migrate
deriving DecidableEq, Repr

namespace Level

def options : Level → List Flag
  | program => [.help, .version, .verbose]
  | validate => [.help, .verbose, .kind]
  | expand => [.help, .verbose, .manifest, .config, .json]
  | migrate => [.help, .verbose, .manifest, .config, .storageRoot, .overwrite]

def operands : Level → Nat
  | validate => 1
  | program | expand | migrate => 0

def ofName? : String → Option Level
  | "validate" => some validate
  | "expand" => some expand
  | "migrate" => some migrate
  | _ => none

end Level

inductive Halt where
  | help
  | version
  | misuse
deriving DecidableEq, Repr

structure Given where
  flags : List Flag := []
  values : List (Flag × String) := []
  operands : List String := []

namespace Given

def withFlag (given : Given) (option : Flag) : Except Halt Given :=
  match option with
  | .help => .error .help
  | .version => .error .version
  | _ =>
      if given.flags.contains option then .error .misuse
      else .ok { given with flags := option :: given.flags }

def withValue (given : Given) (option : Flag) (value : String) : Except Halt Given :=
  if (given.values.lookup option).isSome || !option.accepts value then .error .misuse
  else .ok { given with values := (option, value) :: given.values }

def withOperand (given : Given) (level : Level) (value : String) : Except Halt Given :=
  if given.operands.length < level.operands then
    .ok { given with operands := given.operands ++ [value] }
  else .error .misuse

def path? (given : Given) (option : Flag) : Option FilePath :=
  (given.values.lookup option).map FilePath.mk

end Given

def isOperand (arg : String) : Bool :=
  arg.toList.head? != some '-' || arg == "-"

def withNext (given : Given) (option : Flag) (next? : Option String) :
    Except Halt (Given × Bool) :=
  match next?.filter isOperand with
  | none => .error .misuse
  | some value => (given.withValue option value).map fun given => (given, true)

/-- Read an option by its word, behind which a value may follow an equals sign. Tells
whether the next argument was taken as the value. -/
def readWord (level : Level) (text : List Char) (next? : Option String) (given : Given) :
    Except Halt (Given × Bool) :=
  let word := text.takeWhile (· != '=')
  match level.options.find? fun option => option.word.toList == word with
  | none => .error .misuse
  | some option =>
      match option.takesValue, text.drop word.length with
      | true, [] => withNext given option next?
      | true, _ :: value =>
          (given.withValue option (String.ofList value)).map fun given => (given, false)
      | false, [] => (given.withFlag option).map fun given => (given, false)
      | false, _ => .error .misuse

/-- Read options by their letters. The first that takes a value takes what follows it,
without an equals sign in front. -/
def readLetters (level : Level) (next? : Option String) :
    List Char → Given → Except Halt (Given × Bool)
  | [], given => .ok (given, false)
  | letter :: rest, given =>
      match level.options.find? fun option => option.letter? == some letter with
      | none => .error .misuse
      | some option =>
          if option.takesValue then
            match rest with
            | [] => withNext given option next?
            | c :: value =>
                let value := if c == '=' then value else c :: value
                (given.withValue option (String.ofList value)).map fun given => (given, false)
          else
            match given.withFlag option with
            | .error halt => .error halt
            | .ok given => readLetters level next? rest given

def readOptions (level : Level) (arg : String) (next? : Option String) (given : Given) :
    Except Halt (Given × Bool) :=
  match arg.toList with
  | '-' :: '-' :: text => readWord level text next? given
  | text => readLetters level next? (text.drop 1) given

def readArguments (level : Level) : Bool → List String → Given → Except Halt Given
  | _, [], given => .ok given
  | operandsOnly, arg :: rest, given =>
      if operandsOnly || isOperand arg then
        match given.withOperand level arg with
        | .error halt => .error halt
        | .ok given => readArguments level operandsOnly rest given
      else if arg = "--" then readArguments level true rest given
      else
        match readOptions level arg rest.head? given with
        | .error halt => .error halt
        | .ok (given, tookNext) =>
            readArguments level false (if tookNext then rest.drop 1 else rest) given
termination_by _ args => args.length
decreasing_by
  · simp
  · simp
  · split <;> simp only [List.length_cons, List.length_drop] <;> omega

inductive Command where
  | validate (kind : ResourceKind) (template : String)
  | expand (manifest : FilePath) (config? : Option FilePath) (asJson : Bool)
  | migrate (manifest : FilePath) (config? storageRoot? : Option FilePath) (overwrite : Bool)
deriving DecidableEq, Repr

namespace Command

def ofGiven (level : Level) (given : Given) : Except Halt Command :=
  match level, given.operands, given.path? .manifest with
  | .validate, [template], _ =>
      let kind := (given.values.lookup .kind).bind ResourceKind.ofName?
      .ok (.validate (kind.getD .asset) template)
  | .expand, _, some manifest =>
      .ok (.expand manifest (given.path? .config) (given.flags.contains .json))
  | .migrate, _, some manifest =>
      .ok (.migrate manifest (given.path? .config) (given.path? .storageRoot)
        (given.flags.contains .overwrite))
  | _, _, _ => .error .misuse

def helpOn : List String → Halt
  | [] => .help
  | [name] => if name = "help" || (Level.ofName? name).isSome then .help else .misuse
  | _ => .misuse

def ofNamed (name : String) (rest : List String) : Except Halt Command :=
  match Level.ofName? name with
  | none => .error (if name = "help" then helpOn rest else .misuse)
  | some level =>
      match readArguments level false rest {} with
      | .error halt => .error halt
      | .ok given => ofGiven level given

def ofArgumentsBehind : List String → Given → Except Halt Command
  | [], _ => .error .misuse
  | arg :: rest, given =>
      if isOperand arg then ofNamed arg rest
      else if arg = "--" then .error .misuse
      else
        match readOptions .program arg none given with
        | .error halt => .error halt
        | .ok (given, _) => ofArgumentsBehind rest given

def documents : Command → List FilePath
  | validate _ _ => []
  | expand manifest config? _ => manifest :: config?.toList
  | migrate manifest config? _ _ => manifest :: config?.toList

def ofArguments (args : List String) : Except Halt Command :=
  ofArgumentsBehind args {}

end Command

end CommandLine

end MediaMigration
