import Reindent.Engine
import Reindent.Text.Integer
import Reindent.Text.Quoted

/-!
# Options of the command

Options stand anywhere among the arguments. A long option takes its value from the next argument or
after an equals sign; short options may be written together, and one that takes a value takes the
rest of its argument. A double dash ends the options. Of a repeated option the last value counts.
Values are checked in the order in which the options first appear.
-/

namespace Reindent.Command

open Text

/-- The options. -/
inductive Flag where
  | language
  | minify
  | preserveComments
  | indentChars
  | indentSpaces
  | maxDepth
  | depthOverflow
  | inPlace
  | verbose
  | version
  | help
deriving DecidableEq, Repr

namespace Flag

/-- All options. -/
def all : List Flag :=
  [.language, .minify, .preserveComments, .indentChars, .indentSpaces, .maxDepth, .depthOverflow,
    .inPlace, .verbose, .version, .help]

/-- The long name. -/
def long : Flag → String
  | .language => "--language"
  | .minify => "--minify"
  | .preserveComments => "--preserve-comments"
  | .indentChars => "--indent-chars"
  | .indentSpaces => "--indent-spaces"
  | .maxDepth => "--max-depth"
  | .depthOverflow => "--depth-overflow"
  | .inPlace => "--in-place"
  | .verbose => "--verbose"
  | .version => "--version"
  | .help => "--help"

/-- The letter of the short name. -/
def short? : Flag → Option Char
  | .language => some 'l'
  | .minify => some 'm'
  | .inPlace => some 'i'
  | .verbose => some 'v'
  | _ => none

/-- Whether a value belongs to the option. -/
def takesValue : Flag → Bool
  | .language | .indentChars | .indentSpaces | .maxDepth | .depthOverflow => true
  | _ => false

/-- The option with a long name. -/
def ofLong? (name : List Char) : Option Flag :=
  all.find? fun f => f.long.toList == name

/-- The option with a letter. -/
def ofShort? (letter : Char) : Option Flag :=
  all.find? fun f => f.short? == some letter

/-- How an option is named in a message about its value. -/
def label (f : Flag) : List Char :=
  match f.short? with
  | none => quoted f.long.toList
  | some c => quoted f.long.toList ++ " / ".toList ++ quoted ['-', c]

end Flag

/-- What is wrong with the arguments. -/
inductive UsageError where
  | noSuchOption (name : List Char)
  | needsValue (name : List Char)
  | takesNoValue (name : List Char)
  | notOneOf (flag : Flag) (value : List Char) (choices : List (List Char))
  | notInteger (flag : Flag) (value : List Char)
  | isDirectory (path : List Char)
  | notReadable (path : List Char)
  | extraArguments (arguments : List (List Char))
  /-- The arguments cannot be used together, or not with the files that are there. -/
  | unusable (reason : String)
deriving DecidableEq, Repr

namespace UsageError

/-- Texts with something between them. -/
def listed (separator : String) (texts : List (List Char)) : String :=
  String.ofList (separator.toList.intercalate texts)

/-- The wording of an error. -/
def message : UsageError → String
  | .noSuchOption name =>
    let n := String.ofList name
    s!"No such option: {n}"
  | .needsValue name =>
    let n := String.ofList (quoted name)
    s!"Option {n} requires an argument."
  | .takesNoValue name =>
    let n := String.ofList (quoted name)
    s!"Option {n} does not take a value."
  | .notOneOf flag value choices =>
    let l := String.ofList flag.label
    let v := String.ofList (quoted value)
    let c := listed ", " (choices.map quoted)
    s!"Invalid value for {l}: {v} is not one of {c}."
  | .notInteger flag value =>
    let l := String.ofList flag.label
    let v := String.ofList (quoted value)
    s!"Invalid value for {l}: {v} is not a valid integer."
  | .isDirectory path =>
    let p := String.ofList (quoted path)
    s!"Invalid value for '[FILEPATH]': File {p} is a directory."
  | .notReadable path =>
    let p := String.ofList (quoted path)
    s!"Invalid value for '[FILEPATH]': File {p} is not readable."
  | .extraArguments [a] =>
    let n := String.ofList a
    s!"Got unexpected extra argument ({n})"
  | .extraArguments arguments =>
    let l := listed " " arguments
    s!"Got unexpected extra arguments ({l})"
  | .unusable reason => s!"Invalid value: {reason}"

/-- Whether the usage is shown in front of the error. -/
def showsUsage : UsageError → Bool
  | .needsValue _ | .takesNoValue _ => false
  | _ => true

end UsageError

/-! ## Scanning -/

/-- An option with its value, which is empty for options without one. -/
abbrev Given := Flag × List Char

/-- Options and other arguments in the order in which they were found. -/
structure Scanned where
  options : List Given := []
  arguments : List (List Char) := []
deriving DecidableEq, Repr

/-- The options in one argument, and one at its end that waits for its value, under the name it was
given. -/
structure Options where
  complete : List Given := []
  waiting? : Option (Flag × List Char) := none
deriving DecidableEq, Repr

/-- Short options behind a dash. -/
def shortOptions : List Char → Except UsageError Options
  | [] => .ok {}
  | c :: rest =>
    match Flag.ofShort? c with
    | none => .error (.noSuchOption ['-', c])
    | some flag =>
      if flag.takesValue then
        if rest.isEmpty then .ok { waiting? := some (flag, ['-', c]) }
        else .ok { complete := [(flag, rest)] }
      else (shortOptions rest).map fun o => { o with complete := (flag, []) :: o.complete }

/-- A long option, with a value after the first equals sign. -/
def longOption (flag : Flag) (name : List Char) (value? : Option (List Char)) :
    Except UsageError Options :=
  match flag.takesValue, value? with
  | true, some value => .ok { complete := [(flag, value)] }
  | true, none => .ok { waiting? := some (flag, name) }
  | false, some _ => .error (.takesNoValue name)
  | false, none => .ok { complete := [(flag, [])] }

/-- Whether an argument is an option. -/
def isOption (argument : List Char) : Bool :=
  argument.head? == some '-' && 1 < argument.length

/-- The options in an argument. -/
def optionsOf (argument : List Char) : Except UsageError Options :=
  let name := argument.takeWhile (· ≠ '=')
  let value? := if argument.contains '=' then some (argument.drop (name.length + 1)) else none
  match Flag.ofLong? name with
  | some flag => longOption flag name value?
  | none =>
    if ['-', '-'].isPrefixOf argument then .error (.noSuchOption name)
    else shortOptions argument.tail

/-- Finds the options among arguments; `waiting?` is an option whose value comes next, under the
name it was given. -/
def scanFrom (found : Scanned) (waiting? : Option (Flag × List Char)) :
    List (List Char) → Except UsageError Scanned
  | [] =>
    match waiting? with
    | none => .ok found
    | some (_, name) => .error (.needsValue name)
  | argument :: rest =>
    match waiting? with
    | some (flag, _) =>
      scanFrom { found with options := found.options ++ [(flag, argument)] } none rest
    | none =>
      if argument = ['-', '-'] then .ok { found with arguments := found.arguments ++ rest }
      else if isOption argument then
        match optionsOf argument with
        | .error e => .error e
        | .ok o => scanFrom { found with options := found.options ++ o.complete } o.waiting? rest
      else scanFrom { found with arguments := found.arguments ++ [argument] } none rest

/-- Finds the options among arguments. -/
def scan (arguments : List (List Char)) : Except UsageError Scanned :=
  scanFrom {} none arguments

/-! ## Requests -/

/-- What the command is asked to do. -/
structure Request where
  language : Option Language := none
  minify : Bool := false
  preserveComments : Bool := false
  indentChars : Option (List Char) := none
  indentSpaces : Option Int := none
  maxDepth : Option Int := none
  depthOverflow : Option Overflow := none
  inPlace : Bool := false
  verbose : Bool := false
  /-- The file, or a dash for the standard input. -/
  path : List Char := ['-']
deriving DecidableEq, Repr

/-- Whether the text comes from the standard input. -/
def Request.fromInput (r : Request) : Bool :=
  r.path == ['-']

/-- Reads an integer. -/
def integerValue (flag : Flag) (value : List Char) : Except UsageError Int :=
  match integer? value with
  | some n => .ok n
  | none => .error (.notInteger flag value)

/-- Puts an option into a request. -/
def Request.set (r : Request) : Given → Except UsageError Request
  | (.language, value) =>
    match Language.ofName? value with
    | some l => .ok { r with language := some l }
    | none => .error (.notOneOf .language value (Language.all.map Language.name))
  | (.minify, _) => .ok { r with minify := true }
  | (.preserveComments, _) => .ok { r with preserveComments := true }
  | (.indentChars, value) => .ok { r with indentChars := some value }
  | (.indentSpaces, value) =>
    (integerValue .indentSpaces value).map fun n => { r with indentSpaces := some n }
  | (.maxDepth, value) => (integerValue .maxDepth value).map fun n => { r with maxDepth := some n }
  | (.depthOverflow, value) =>
    match Overflow.ofName? value with
    | some p => .ok { r with depthOverflow := some p }
    | none => .error (.notOneOf .depthOverflow value [Overflow.name .clamp, Overflow.name .error])
  | (.inPlace, _) => .ok { r with inPlace := true }
  | (.verbose, _) => .ok { r with verbose := true }
  | (.version, _) | (.help, _) => .ok r

/-- Options in the order of their first appearance, each with its last value. -/
def settled (options : List Given) : List Given :=
  (options.map Prod.fst).eraseDups.filterMap fun f => options.reverse.find? fun o => o.1 = f

/-- Puts options into a request one after the other. -/
def Request.setAll (r : Request) : List Given → Except UsageError Request
  | [] => .ok r
  | o :: rest =>
    match r.set o with
    | .ok r => r.setAll rest
    | .error e => .error e

/-- The request that options and other arguments make; what is left over of the arguments is given
beside it. -/
def Scanned.request (s : Scanned) : Except UsageError (Request × List (List Char)) := do
  let r ← Request.setAll {} (settled s.options)
  match s.arguments with
  | [] => pure (r, [])
  | path :: extra => pure ({ r with path := path }, extra)

end Reindent.Command
